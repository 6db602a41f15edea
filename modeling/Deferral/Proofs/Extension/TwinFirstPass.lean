import Deferral.Proofs.Extension.TwinClass
import Deferral.Proofs.Scope.FirstPass
import Deferral.Proofs.SecondPass.Resolved

/-!
# The first pass visits the class

The first pass goes over the class that takes in its extensions and over the class that has their members
from the start in step, and from there on the tables match inside both.
-/

namespace Deferral

open Resolution SymbolTable
open Signature (withoutMembers)

namespace Faulting

variable {S S' : SymbolTable → SymbolTable → Prop} {α α' β β' : Type} {B : β → β' → Prop} {t t' u u' : SymbolTable}

/-- What resolves without a fault on both sides may be followed by anything. -/
theorem tracksAt_bind_resolved {x : Resolution α} {x' : Resolution α'} {a : α} {a' : α'}
    (run : Runs x t (.ok a) u) (run' : Runs x' t' (.ok a') u') {f : α → Faulting β} {f' : α' → Faulting β'}
    (rest : TracksAt S B (f a) u (f' a') u') :
    TracksAt S B (resolve x >>= f) t (resolve x' >>= f') t' := by
  intro ρ ρ' r ρ₁ v reports ended
  rcases ends_bind.mp ended with ⟨d, first, rfl⟩ | ⟨b, ρ₂, t₂, first, next⟩
  · obtain ⟨inner, rfl⟩ := ends_resolve.mp first
    exact nomatch (Prod.mk.inj (run.symm.trans inner)).1
  · obtain ⟨inner, rfl⟩ := ends_resolve.mp first
    obtain ⟨same, rfl⟩ := Prod.mk.inj (run.symm.trans inner)
    obtain rfl := Except.ok.inj same
    obtain ⟨r', ρ₁', v', next', after⟩ := rest reports next
    exact ⟨r', ρ₁', v', ends_bind.mpr (.inr ⟨_, _, _, ends_resolve.mpr ⟨run', rfl⟩, next'⟩), after⟩

/-- What resolves without a fault on one side alone may do so. -/
theorem tracksAt_bind_resolved_left {x : Resolution α} {a : α} (run : Runs x t (.ok a) u)
    {f : α → Faulting β} {y : Faulting β'} (rest : TracksAt S B (f a) u y t') :
    TracksAt S B (resolve x >>= f) t y t' := by
  intro ρ ρ' r ρ₁ v reports ended
  rcases ends_bind.mp ended with ⟨d, first, rfl⟩ | ⟨b, ρ₂, t₂, first, next⟩
  · obtain ⟨inner, rfl⟩ := ends_resolve.mp first
    exact nomatch (Prod.mk.inj (run.symm.trans inner)).1
  · obtain ⟨inner, rfl⟩ := ends_resolve.mp first
    obtain ⟨same, rfl⟩ := Prod.mk.inj (run.symm.trans inner)
    obtain rfl := Except.ok.inj same
    exact rest reports next

theorem tracksAt_ending_left {x : Faulting β} {y : Faulting β'} (h : TracksAt S B x t y t')
    {after : SymbolTable → SymbolTable} (step : ∀ u u', S u u' → S' (after u) u') :
    TracksAt S' B (ending x after) t y t' := by
  intro ρ ρ' r ρ₁ u reports run
  obtain ⟨t₁, inner, rfl⟩ := ends_ending.mp run
  obtain ⟨r', ρ₁', u', inner', outcome, reports', same⟩ := h reports inner
  exact ⟨r', ρ₁', u', inner', outcome, reports', step _ _ same⟩

end Faulting

/-! ## Classes without a kind -/

/-- The kind of a class is the one that classes have for which none is written. -/
structure SymbolTable.Kindless (t : SymbolTable) (id : DeclId) : Prop where
  sound : t.Sound
  kind : (t.decl id).typeIn? .kind = some .metatype

theorem SymbolTable.Kindless.advances {t t' : SymbolTable} {id : DeclId} (h : t.Kindless id)
    (advances : t.Advances t') : t'.Kindless id where
  sound := advances.sound h.sound
  kind := by
    have kind := h.kind
    have lt : id.index < t.decls.size := lt_size_of_kind fun none => by simp [Decl.typeIn?, none] at kind
    have evolves := (advances.evolves.decls id lt).kind
    unfold Decl.typeIn? at kind ⊢
    cases held : (t.decl id).kind with
    | classDecl sort type body =>
      rw [held] at kind evolves
      obtain rfl : type = .metatype := Option.some.inj kind
      generalize (t'.decl id).kind = new at evolves
      cases evolves with
      | classDecl same _ =>
        rcases same with rfl | deferred
        · rfl
        · cases deferred
    | _ => simp [held] at kind

theorem SymbolTable.Kindless.runs_forceSlot {t : SymbolTable} {id : DeclId} (h : t.Kindless id) (s : ScopeId) :
    Runs (Resolution.under s (Resolution.forceSlot id .kind)) t (.ok ()) t := by
  refine runs_under.mpr ⟨t.enter s, ?_, rfl⟩
  unfold Resolution.forceSlot Resolution.forceSlotWith
  have kind : ((t.enter s).decl id).typeIn? .kind = some .metatype := h.kind
  rw [runs_bind_look, kind]
  exact runs_pure.mpr ⟨rfl, rfl⟩

namespace Twins

variable {W : Twins} {n m level : Nat} {u u' w v v' : SymbolTable} {x x' : DeclId} {s s' : ScopeId}

/-! ## The members -/

/-- What the fragments inside consist of matches. -/
theorem allMatch_bodies (W : Twins) : Stmt.AllMatch (W.pairing True False).left Pairing.right
    ((W.inside.map Prod.fst).flatMap Inset.body) ((W.inside.map Prod.snd).flatMap Inset.body) := by
  have exact' := W.exact_pairing True False
  obtain ⟨us, reached⟩ := W.reached
  obtain ⟨us', reached'⟩ := W.reached'
  have part {t : SymbolTable} {f : Frame} (stands : f.Stands t) {p : Inset} (member : p ∈ f.parts)
      (tame : ∀ x, ∀ e ∈ Stmt.expressionsIn (t.members x), e.type.Tame) :
      ∀ e ∈ Stmt.expressionsIn p.body, e.type.Tame := by
    intro e inside
    refine tame f.id e ?_
    have members : t.members f.id = f.body := by
      unfold SymbolTable.members
      rw [stands.decl]
      rfl
    obtain ⟨stmt, there, holds⟩ := Stmt.mem_expressionsIn.mp inside
    rw [members]
    exact Stmt.mem_expressionsIn.mpr ⟨stmt, List.mem_flatMap.mpr ⟨p, member, there⟩, holds⟩
  have all : ∀ ps : List (Inset × Inset), (∀ p ∈ ps, p ∈ W.inside) →
      Stmt.AllMatch (W.pairing True False).left Pairing.right ((ps.map Prod.fst).flatMap Inset.body)
        ((ps.map Prod.snd).flatMap Inset.body) := by
    intro ps members
    induction ps with
    | nil => exact .nil
    | cons p ps ih =>
      have inside := members p (List.mem_cons_self ..)
      refine Stmt.AllMatch.append ⟨?_, ?_, ?_⟩ (ih fun q member => members q (List.mem_cons_of_mem p member))
      · have covers : (W.pairing True False).Covers p := (slot_inside inside).covers
        have same' := p.2.same
        rw [show p.2.fragment = p.1.fragment from covers.same] at same'
        exact covers.same_of_sames exact' p.1.same same'
      · have listed : p.1 ∈ (W.cls :: W.extensions).flatMap Frame.parts := by
          rw [W.parts]
          exact List.mem_map_of_mem inside
        obtain ⟨f, frame, there⟩ := List.mem_flatMap.mp listed
        exact part (W.frames f frame).1 there reached.tame.members
      · have listed : p.2 ∈ W.cls'.parts := by
          rw [W.parts']
          exact List.mem_map_of_mem inside
        exact part W.frame' listed reached'.tame.members
  exact all W.inside fun _ member => member

theorem members_frame {t : SymbolTable} {f : Frame} (stands : f.Stands t) : t.members f.id = f.body := by
  unfold SymbolTable.members
  rw [stands.decl]
  rfl

section Before

variable (h : W.before.Joins n u u')

include h

/-- The class has the members of its extensions behind its own. -/
theorem members_within (taken : TakesIn W.cls.id W.cls.scope (W.extensions.map Frame.id) u w) :
    w.members W.cls.id = (W.inside.map Prod.fst).flatMap Inset.body := by
  rw [taken.members_class (isPrimaryClass_cls h).1, h.confined.members _ W.not_held.1]
  have own : W.before.base.members W.cls.id = W.cls.body := members_frame (W.frames _ (List.mem_cons_self ..)).1
  have others : (W.extensions.map Frame.id).flatMap u.members = W.extensions.flatMap Frame.body := by
    rw [List.flatMap_map]
    refine List.flatMap_congr fun f member => ?_
    unfold SymbolTable.members
    rw [decl_extension h member]
    exact members_frame (W.frames f (List.mem_cons_of_mem _ member)).1
  rw [own, others, ← W.parts, ← List.flatMap_cons (f := Frame.body), List.flatMap_assoc]
  rfl

theorem members_cls' : u'.members W.cls'.id = (W.inside.map Prod.snd).flatMap Inset.body := by
  rw [h.confined'.members _ W.not_held.2]
  have own : W.before.base'.members W.cls'.id = W.cls'.body := members_frame W.frame'
  rw [own, Frame.body, W.parts']

theorem find?_cls' : (u'.scope .global).find? W.cls.name = some [W.cls'.id] := by
  obtain ⟨set, found, -, kept, -⟩ := W.sets
  have aligned := h.aligned (plain_of_paired W.before.global W.frame'.inner.symm) W.before.global
  have names := aligned.names W.cls.name
  rw [show (u.scope .global).find? W.cls.name = some set from h.own.trans found] at names
  have shown : W.before.shown set = [W.before.right.decl W.cls'.id] := by
    show (set.filter W.keep).map _ = _
    rw [show set.filter W.keep = [W.cls.id] from kept]
    exact congrArg (fun d => [d]) paired_cls
  obtain ⟨set', found', same⟩ := Option.map_eq_some_iff.mp names.symm
  rw [shown] at same
  rw [found']
  refine congrArg some (List.map_injective_iff.mpr W.before.distinct' ?_)
  exact same

end Before

/-! ## From the class on -/

/-- The tables match inside the class as well, and so do its members. -/
def Inside (W : Twins) (n : Nat) (v v' : SymbolTable) : Prop :=
  ∃ since : W.Since v v', (during since).Joins n v v' ∧
    Stmt.AllMatch (W.pairing True False).left Pairing.right (v.members W.cls.id) (v'.members W.cls'.id) ∧
    ∀ f ∈ W.extensions, (v.decl f.id).isExtension = true

/-- Nothing belongs to an extension, nor does anything hold the class yet. -/
theorem not_during {b b' : SymbolTable} (since : W.Since b b') :
    (∀ f ∈ W.extensions, f.id ∉ Set.preimage (during since).left.decl (Set.range (during since).right.decl)) ∧
    W.cls.id ∉ Set.preimage (during since).left.held (Set.range (during since).right.held) ∧
    W.cls'.id ∉ Set.preimage (during since).right.held (Set.range (during since).left.held) := by
  refine ⟨fun f member => ?_, ?_, ?_⟩
  · rintro ⟨x', paired⟩
    rcases twin_of_decl paired.symm with twin | ⟨same, -⟩ | late
    · exact twin.ne.1 f (List.mem_cons_of_mem _ member) rfl
    · exact keep_iff.mp W.keep_cls f member same
    · exact late.ne.1 f (List.mem_cons_of_mem _ member) rfl
  · rintro ⟨x', paired⟩
    rcases twin_of_held paired.symm with twin | ⟨held, -⟩ | late
    · exact twin.ne.1 _ (List.mem_cons_self ..) rfl
    · exact held
    · exact late.ne.1 _ (List.mem_cons_self ..) rfl
  · rintro ⟨x, paired⟩
    rcases twin_of_held paired with twin | ⟨held, -⟩ | late
    · exact twin.ne.2 rfl
    · exact held
    · exact late.ne.2 rfl

theorem map_filter_true (found : Option Overloads) : found = found.map (List.filter fun _ => true) := by
  cases found <;> simp

theorem settled_refl (cls : DeclId) (ordered : v.Ordered) (layered : v.Layered) : W.Settled cls v v where
  decl _ := ⟨id, (Decl.mapMembers_id _).symm⟩
  members _ _ := rfl
  parent _ := rfl
  names _ _ _ := rfl
  set := ⟨fun _ => true, map_filter_true _, fun _ _ _ _ _ => rfl⟩
  constants := rfl
  binding := rfl
  active := rfl
  decls := rfl
  scopes := rfl
  saved := rfl
  ordered
  layered

theorem settled_members (cls : DeclId) (ordered : v.Ordered) (layered : v.Layered) (body : List Stmt) :
    W.Settled cls v (v.modifyDecl cls (·.mapMembers fun _ => body)) where
  decl x := by
    rw [decl_modifyDecl]
    split
    · rename_i here
      exact ⟨_, by rw [here.1]⟩
    · exact ⟨id, (Decl.mapMembers_id _).symm⟩
  members x ne := by
    unfold SymbolTable.members
    rw [decl_modifyDecl_of_ne ne]
  parent _ := rfl
  names _ _ _ := rfl
  set := ⟨fun _ => true, map_filter_true _, fun _ _ _ _ _ => rfl⟩
  constants := rfl
  binding := rfl
  active := rfl
  decls := size_modifyDecl ..
  scopes := rfl
  saved := rfl
  ordered := ordered
  layered := layered.imp fun _ layers => layers.rests (.mapMembers v cls _)

/-- The extensions give up the name of the class. -/
theorem settled_keepOnly (cls : DeclId) (ordered : v.Ordered) (layered : v.Layered)
    (keeps : ∀ set, (v.scope .global).find? W.cls.name = some set → ∀ d ∈ set, W.keep d = true →
      (v.decl d).isExtension = false) :
    W.Settled cls v (v.keepOnly .global W.cls.name fun d => !d.isExtension) := by
  have drops := drops_keepOnly ordered .global W.cls.name
  have decl (x : DeclId) : (v.keepOnly .global W.cls.name fun d => !d.isExtension).decl x = v.decl x := by
    unfold SymbolTable.decl
    rw [drops.decls]
  exact
  { decl := fun x => ⟨id, (decl x).trans (Decl.mapMembers_id _).symm⟩
    members := fun x _ => by
      unfold SymbolTable.members
      rw [decl]
    parent := fun s => by
      by_cases here : s = .global
      · rw [here]
        exact drops.parent
      · rw [drops.scope s here]
    names := fun s name other => by
      by_cases here : s = .global
      · subst here
        exact drops.names name (other.resolve_left fun ne => ne rfl)
      · rw [drops.scope s here]
    set := ⟨fun d => !(v.decl d).isExtension, drops.set, fun set found d member kept => by
      show (!(v.decl d).isExtension) = true
      rw [keeps set found d member kept]
      rfl⟩
    constants := drops.constants
    binding := drops.binding
    active := drops.active
    decls := congrArg Array.size drops.decls
    scopes := drops.scopes
    saved := drops.saved
    ordered := ordered_keepOnly ordered .global W.cls.name _
    layered := layered.imp fun _ layers => layers.keepOnly .global W.cls.name _ }

theorem Inside.mono {k : Nat} (h : W.Inside k v v') (le : k ≤ n) : W.Inside n v v' := by
  obtain ⟨since, joins, rest⟩ := h
  exact ⟨since, joins.mono le, rest⟩

/-- What settles between two steps leaves tables that match inside. -/
theorem inside_of_settled {b b' z z' : SymbolTable} {k : Nat} (since : W.Since b b')
    (h : (during since).Joins k v v') (left : W.Settled W.cls.id v z) (right : W.Settled W.cls'.id v' z')
    (scopes' : ∀ s, z'.scope s = v'.scope s) (members : Stmt.AllMatch (W.pairing True False).left Pairing.right
      (z.members W.cls.id) (z'.members W.cls'.id)) (extensions : ∀ f ∈ W.extensions, (v.decl f.id).isExtension = true)
    (bounded : z'.Bounded n) : W.Inside n z z' := by
  have later := since.trans h.decls h.scopes h.confined.saved h.confined'.saved
  have settled : W.Since z z' := later.trans ⟨0, left.decls, right.decls⟩ ⟨0, left.scopes, right.scopes⟩
    left.saved right.saved
  exact ⟨settled, joins_settled since h left right scopes' False.elim (fun _ => id) settled False.elim bounded,
    members, fun f member => (left.isExtension f.id).trans (extensions f member)⟩

end Twins

/-! ## The first pass over the class

The first pass goes over the class that takes in its extensions and over the class that has had their members
from the start in step.
-/

open Resolution SymbolTable Signature

namespace Twins

variable {W : Twins} {n m level more : Nat} {u u' w v v' : SymbolTable}

section Before

variable (h : W.before.Joins n u u')

include h

/-- The members of the class are walked in step. -/
theorem tracksAt_members_within {walk walk' : List Stmt → Reporting (List Stmt)} (lt : n < level + 1)
    (walks : ∀ {b b' : SymbolTable} (since : W.Since b b') m body body',
      Stmt.AllMatch (W.pairing True False).left Pairing.right body body' →
      (Stmt.declaresIn body' ≠ [] → m < level) →
      Reporting.Tracks ((during since).Joins m) (AllWalkedTo (during since) body') (walk body) (walk' body'))
    (taken : TakesIn W.cls.id W.cls.scope (W.extensions.map Frame.id) u w) (ordered : w.Ordered)
    (layered : w.Layered) :
    Reporting.TracksAt (fun v v' => W.Inside n v v' ∧
        (v.scope .global).find? W.cls.name = (W.t.scope .global).find? W.cls.name) (fun _ _ => True)
      (members walk W.cls.id W.cls.scope) w (members walk' W.cls'.id W.cls'.scope) u' := by
  obtain ⟨primary, primary'⟩ := isPrimaryClass_cls h
  have isClass' := members?_isSome_of_isPrimaryClass primary'
  obtain ⟨m, bounded, deep, refill⟩ := h.bounded.walkMembers lt isClass'
  have since := since_within h taken
  have hollow := joins_within h taken ordered layered since bounded
  have scopes : (during since).left.scope W.cls.scope = (during since).right.scope W.cls'.scope :=
    (W.exact_pairing True False).scope_iff.mpr
      (.extra (.inr (.inr ⟨trivial, ⟨W.cls, List.mem_cons_self .., rfl⟩, rfl⟩)))
  have inside : W.cls.scope.index < (withoutMembers w W.cls.id).scopes.size := by
    obtain ⟨k, size, -⟩ := since.scopes
    have lt := (W.frames _ (List.mem_cons_self ..)).1.opened
    omega
  have bodies := W.allMatch_bodies
  rw [← members_within h taken, ← members_cls' h] at bodies
  refine Reporting.tracksAt_bind_look (Reporting.tracksAt_bind_change ?_)
  refine (Reporting.TracksAt.under (walks since m _ _ bodies deep (hollow.enter scopes inside))
    fun _ _ joins => joins.leave).bind fun body body' v v' walked joins => Reporting.tracksAt_change ?_
  have isClass : (v.decl W.cls.id).members?.isSome = true := by
    obtain ⟨f, same⟩ := exists_mapMembers taken W.cls.id
    have base : (during since).base.decl W.cls.id = _ := same
    rw [joins.confined.classes, base, Decl.members?_mapMembers, Option.isSome_map]
    exact members?_isSome_of_isPrimaryClass primary
  have isClass₁ : (v'.decl W.cls'.id).members?.isSome = true := by
    rw [joins.isSome_members? hollow]
    show ((u'.modifyDecl W.cls'.id (·.mapMembers fun _ => [])).decl W.cls'.id).members?.isSome = true
    rw [decl_modifyDecl]
    split
    · rw [Decl.members?_mapMembers, Option.isSome_map]
      exact isClass'
    · exact isClass'
  refine ⟨inside_of_settled since joins (settled_members _ joins.confined.ordered joins.confined.layered body)
    (settled_members _ joins.confined'.ordered joins.confined'.layered body') (fun _ => rfl) ?_ ?_ ?_, ?_⟩
  · rw [members_mapMembers_self isClass, members_mapMembers_self isClass₁]
    exact walked.same
  · intro f member
    obtain ⟨g, same⟩ := exists_mapMembers taken f.id
    have base : (during since).base.decl f.id = _ := same
    rw [joins.confined.decl _ ((not_during since).1 f member), base, Decl.isExtension_mapMembers]
    exact isExtension_extension h member
  · exact refill joins.bounded isClass₁ fun empty => List.subset_nil.mp (empty ▸ walked.declares)
  · have own : (v.scope .global).find? W.cls.name =
        ((withoutMembers w W.cls.id).scope .global).find? W.cls.name := joins.own
    refine own.trans ?_
    rw [scope_within h taken fun f member => (W.frames f member).1.inner]
    exact h.own

/-- The first pass goes over the class in step, whose kind is known, and both match inside afterwards. -/
theorem tracksAt_classMembers_cls {walk walk' : List Stmt → Reporting (List Stmt)} (lt : n < level + 1)
    (walks : ∀ {b b' : SymbolTable} (since : W.Since b b') m body body',
      Stmt.AllMatch (W.pairing True False).left Pairing.right body body' →
      (Stmt.declaresIn body' ≠ [] → m < level) →
      Reporting.Tracks ((during since).Joins m) (AllWalkedTo (during since) body') (walk body) (walk' body'))
    (kindless : u.Kindless W.cls.id) (kindless' : u'.Kindless W.cls'.id) :
    Faulting.TracksAt (W.Inside n) (fun _ _ => True) (classMembers walk W.cls.id) u
      (classMembers walk' W.cls'.id) u' := by
  obtain ⟨name, global, name', global'⟩ := title_cls h
  obtain ⟨owns, owns'⟩ := owns_cls h
  obtain ⟨w, absorbs, ordered, layered, taken⟩ := exists_takesIn h
  refine Faulting.tracksAt_bind_look ?_
  rw [global, global']
  refine Faulting.tracksAt_bind_resolved (kindless.runs_forceSlot _) (kindless'.runs_forceSlot _) ?_
  refine Faulting.tracksAt_bind_resolved (run_scopeOf_of_eq_some owns) (run_scopeOf_of_eq_some owns') ?_
  have acted := Faulting.tracksAt_lift (tracksAt_members_within h lt walks taken ordered layered)
  refine Faulting.tracksAt_bind_look (Faulting.tracksAt_bind_look ?_)
  have alone : u'.isOverloaded .global W.cls.name = false := by
    unfold isOverloaded
    rw [find?_cls' h]
    rfl
  rw [name, name', alone]
  by_cases overloaded : u.isOverloaded .global W.cls.name = true
  · rw [if_pos overloaded] at absorbs
    rw [if_pos overloaded]
    refine Faulting.tracksAt_ending_left (Faulting.tracksAt_bind_resolved_left absorbs acted)
      fun v v' ⟨⟨since, joins, bodies, extensions⟩, same⟩ => ?_
    have keeps : ∀ set, (v.scope .global).find? W.cls.name = some set → ∀ d ∈ set, W.keep d = true →
        (v.decl d).isExtension = false := by
      intro set found d member kept
      obtain ⟨all, known, -, only, -⟩ := W.sets
      obtain rfl := Option.some.inj (found.symm.trans (same.trans known))
      have here : d ∈ set.filter W.keep := List.mem_filter.mpr ⟨member, kept⟩
      obtain rfl := List.mem_singleton.mp ((show set.filter W.keep = [W.cls.id] from only) ▸ here)
      by_contra extension
      have held := joins.extension trivial
        ((W.exact_pairing True False).decl_iff.mpr (.extra (.inl ⟨rfl, rfl⟩))) (by simpa using extension)
      rcases twin_of_held held with twin | ⟨none, -⟩ | late
      · exact twin.ne.1 _ (List.mem_cons_self ..) rfl
      · exact none
      · exact late.ne.1 _ (List.mem_cons_self ..) rfl
    have settled := settled_keepOnly (W := W) W.cls.id joins.confined.ordered joins.confined.layered keeps
    refine inside_of_settled since joins settled (settled_refl _ joins.confined'.ordered joins.confined'.layered)
      (fun _ => rfl) ?_ extensions joins.bounded
    have kept : (v.keepOnly .global W.cls.name fun d => !d.isExtension).members W.cls.id =
        v.members W.cls.id := by
      have drops := drops_keepOnly joins.confined.ordered .global W.cls.name
      show (((v.keepOnly _ _ _).decls.getD W.cls.id.index default).members?).getD [] = _
      rw [drops.decls]
      rfl
    rw [kept]
    exact bodies
  · rw [if_neg overloaded] at absorbs
    rw [if_neg overloaded]
    subst absorbs
    exact Reporting.TracksAt.mono acted (fun _ _ same => same) fun _ _ both => both.1

end Before

end Twins

/-! ## The first pass over both units

The first pass goes over both units in step: over what stands outside of the class before and behind it, over
the class once, and over the extensions on the one side alone, where it does nothing.
-/

open SymbolTable Signature

namespace Reporting

variable {S : SymbolTable → SymbolTable → Prop} {α α' β β' : Type} {A : α → α' → Prop} {B : β → β' → Prop}
  {t t' u : SymbolTable} {x : Reporting α} {x' : Reporting α'}

/-- What holds after whatever is done on one side holds as well. -/
theorem TracksAt.keeping (h : TracksAt S A x t x' t') {P P' : SymbolTable → Prop}
    (left : ∀ {ρ a ρ₁ u}, Ends x ρ t a ρ₁ u → P u) (right : ∀ {ρ a ρ₁ u}, Ends x' ρ t' a ρ₁ u → P' u) :
    TracksAt (fun u u' => S u u' ∧ P u ∧ P' u') A x t x' t' := by
  intro ρ ρ' a ρ₁ u reports run
  obtain ⟨a', ρ₁', u', run', related, reports', same⟩ := h reports run
  exact ⟨a', ρ₁', u', run', related, reports', same, left run, right run'⟩

/-- One side alone may do something that reports nothing. -/
theorem tracksAt_bind_left {a : α} (run : ∀ ρ, Ends x ρ t a ρ u) {f : α → Reporting β} {y : Reporting β'}
    (rest : TracksAt S B (f a) u y t') : TracksAt S B (x >>= f) t y t' := by
  intro ρ ρ' b ρ₁ v reports ended
  obtain ⟨a₁, ρ₂, t₂, first, next⟩ := ends_bind.mp ended
  obtain ⟨same, rfl⟩ := Prod.mk.inj ((run ρ).symm.trans first)
  obtain ⟨rfl, rfl⟩ := Prod.mk.inj same
  exact rest reports next

end Reporting

/-- An extension is left to its class. -/
theorem Signature.ends_declare_extension {t : SymbolTable} {id : DeclId} (extension : (t.decl id).isExtension = true)
    (ρ : List Diagnostic) : Reporting.Ends (declare id) ρ t () ρ t := by
  unfold declare
  refine Reporting.ends_bind_look.mpr ?_
  show Reporting.Ends (do
    let fault? ← (declaration (declareWithin t.decls.size) id).fault?
    Reporting.reportWithin (← Reporting.look fun t => (t.decl id).subject) fault?) ρ t () ρ t
  refine Reporting.ends_bind.mpr ⟨none, ρ, t, Faulting.ends_fault?.mpr (.inl ⟨rfl, ?_⟩), ?_⟩
  · unfold declaration
    refine Faulting.ends_bind_look.mpr ?_
    unfold Decl.isExtension at extension
    cases kind : (t.decl id).kind with
    | classDecl sort type body =>
      rw [kind] at extension
      cases sort with
      | primary => cases extension
      | extension => exact Faulting.ends_pure.mpr ⟨rfl, rfl, rfl⟩
    | _ => simp [kind] at extension
  · exact Reporting.ends_bind_look.mpr (Reporting.ends_reportWithin.mpr ⟨by simp, rfl⟩)

namespace Twins

variable {W : Twins} {n : Nat} {v v' : SymbolTable}

/-- The statements of two units go along with each other; the class is still to come, or has come. -/
inductive Along (W : Twins) : Prop → List Stmt → List Stmt → Prop
  | nil : Along W False [] []
  | other {ahead : Prop} {s s' : Stmt} {body body' : List Stmt}
      (same : s.Matches (W.pairing False False).left Pairing.right s') (rest : Along W ahead body body') :
      Along W ahead (s :: body) (s' :: body')
  | extension {ahead : Prop} {f : Frame} {span : Span} {body body' : List Stmt} (member : f ∈ W.extensions)
      (rest : Along W ahead body body') : Along W ahead (.declaration f.id span :: body) body'
  | cls {span span' : Span} {body body' : List Stmt} (rest : Along W False body body') :
      Along W True (.declaration W.cls.id span :: body) (.declaration W.cls'.id span' :: body')

/-- What has become of statements that go along with each other. -/
inductive Walked (W : Twins) : List Stmt → List Stmt → Prop
  | nil : Walked W [] []
  | other {s s' : Stmt} {body body' : List Stmt}
      (same : s.Matches (W.pairing True True).left Pairing.right s') (rest : Walked W body body') :
      Walked W (s :: body) (s' :: body')
  | extension {f : Frame} {span : Span} {body body' : List Stmt} (member : f ∈ W.extensions)
      (rest : Walked W body body') : Walked W (.declaration f.id span :: body) body'

theorem matches_of_fits {within holding within' holding' : Prop} (le : within → within')
    (le' : holding → holding') {s s' : Stmt}
    (h : s.Matches (W.pairing within holding).left Pairing.right s') :
    s.Matches (W.pairing within' holding').left Pairing.right s' := by
  have wider := (within_pairing (W := W) le le').left (W.exact_pairing within' holding')
  refine ⟨?_, h.tame, h.tame'⟩
  have same := congrArg (Stmt.labelled (W.pairing within' holding').relabel) h.same
  rw [Stmt.labelled_labelled, Stmt.labelled_labelled, wider, Pairing.right_through] at same
  exact same

/-- Before the class has been visited. -/
structure Before (W : Twins) (n : Nat) (v v' : SymbolTable) : Prop where
  joins : W.before.Joins n v v'
  left : v.Kindless W.cls.id
  right : v'.Kindless W.cls'.id

theorem Before.extension (h : W.Before n v v') {f : Frame} (member : f ∈ W.extensions) :
    (v.decl f.id).isExtension = true := isExtension_extension h.joins member

theorem advances_statement {s : Stmt} {t u : SymbolTable} {ρ ρ₁ : List Diagnostic} {w : Stmt} (sound : t.Sound)
    (run : Reporting.Ends (statement declare s) ρ t w ρ₁ u) : t.Advances u :=
  (ends_statement opening_walks s (opening_declare _) sound run).1.1.advances

/-- The first pass goes over a statement outside of the class in step. -/
theorem Before.statement (h : W.Before n v v') {s s' : Stmt}
    (same : s.Matches (W.pairing False False).left Pairing.right s') :
    Reporting.TracksAt (W.Before n) (fun w w' => w.Matches (W.pairing True True).left Pairing.right w')
      (Signature.statement declare s) v (Signature.statement declare s') v' := by
  have tracked := (tracks_statement (M := W.before) (passesInStep_declare trivial W.smaller n _) s s' same
    (List.Subset.refl _) h.joins).keeping
      (fun {_ _ _ u} run => (h.left.advances (advances_statement h.left.sound run) : u.Kindless W.cls.id))
      (fun {_ _ _ u} run => (h.right.advances (advances_statement h.right.sound run) : u.Kindless W.cls'.id))
  exact tracked.mono (fun _ _ walked => matches_of_fits False.elim False.elim walked.same)
    fun u u' ⟨joins, left, right⟩ => ⟨joins, left, right⟩

theorem Inside.statement (h : W.Inside n v v') {s s' : Stmt}
    (same : s.Matches (W.pairing False False).left Pairing.right s') :
    Reporting.TracksAt (W.Inside n) (fun w w' => w.Matches (W.pairing True True).left Pairing.right w')
      (Signature.statement declare s) v (Signature.statement declare s') v' := by
  obtain ⟨since, joins, bodies, extensions⟩ := h
  have smaller : v'.decls.size ≤ v.decls.size := by
    obtain ⟨k, size, size'⟩ := since.decls
    have smaller := W.smaller
    omega
  have inside : s.Matches (during since).left (during since).right s' := matches_of_fits False.elim id same
  refine (tracks_statement (M := during since) (passesInStep_declare trivial smaller n _) s s' inside
    (List.Subset.refl _) joins).mono (fun _ _ walked => matches_of_fits id False.elim walked.same)
    fun u u' joins => ?_
  obtain ⟨apart, held, held'⟩ := not_during since
  refine inside_of_settled since joins (settled_refl _ joins.confined.ordered joins.confined.layered)
    (settled_refl _ joins.confined'.ordered joins.confined'.layered) (fun _ => rfl) ?_ (fun f member => ?_)
    joins.bounded
  · rw [joins.confined.members _ held, joins.confined'.members _ held']
    exact bodies
  · rw [joins.confined.decl _ (apart f member)]
    exact extensions f member

/-- The first pass goes over the class in step. -/
theorem Before.declare_cls (h : W.Before n v v') : Reporting.TracksAt (W.Inside n) (fun _ _ => True)
    (declare W.cls.id) v (declare W.cls'.id) v' := by
  obtain ⟨primary, primary'⟩ := isPrimaryClass_cls h.joins
  have le : v'.decls.size ≤ v.decls.size := by
    obtain ⟨k, size, size'⟩ := h.joins.decls
    have smaller : W.before.base'.decls.size ≤ W.before.base.decls.size := W.smaller
    omega
  have short : min n v'.decls.size < v'.decls.size + 1 := by omega
  refine Reporting.tracksAt_bind_look ?_
  have visits {level : Nat} {t : SymbolTable} {id : DeclId} (primary : (t.decl id).isPrimaryClass = true) :
      ∀ {ρ r ρ₁ u}, Faulting.Ends (declaration (declareWithin level) id) ρ t r ρ₁ u ↔
        Faulting.Ends (classMembers (sequence (declareWithin level)) id) ρ t r ρ₁ u := by
    intro ρ r ρ₁ u
    unfold declaration
    rw [Faulting.ends_bind_look]
    unfold Decl.isPrimaryClass at primary
    cases kind : (t.decl id).kind with
    | classDecl sort type body =>
      rw [kind] at primary
      cases sort with
      | primary => exact Iff.rfl
      | extension => cases primary
    | _ => simp [kind] at primary
  have classes : Faulting.TracksAt (W.Inside n) (fun _ _ => True) (declaration (declareWithin v.decls.size) W.cls.id) v
      (declaration (declareWithin v'.decls.size) W.cls'.id) v' := by
    have tracked := tracksAt_classMembers_cls h.joins.min_size short (fun since m body body' all deep =>
      tracks_sequence (M := during since) (n := m) (fun y y' held member =>
        passesInStep_declareWithin trivial _ m (deep (List.ne_nil_of_mem member)) _ le (Stmt.declaresIn body') held member)
        all (List.Subset.refl _)) h.left h.right
    intro ρ ρ' r ρ₁ u reports run
    obtain ⟨r', ρ₁', u', run', outcome, reports', inside⟩ := tracked reports ((visits primary).mp run)
    exact ⟨r', ρ₁', u', (visits primary').mpr run', outcome, reports', inside.mono (Nat.min_le_left ..)⟩
  refine (Faulting.TracksAt.fault? classes).bind fun fault? fault?' u u' related inside => ?_
  refine Reporting.tracksAt_bind_look ?_
  have subject : (u'.decl W.cls'.id).subject = (u.decl W.cls.id).subject := by
    obtain ⟨since, joins, -⟩ := inside
    exact (joins.decl ((W.exact_pairing True False).decl_iff.mpr (.extra (.inl ⟨rfl, rfl⟩)))).subject
  rw [subject]
  exact Reporting.tracks_reportWithin _ related inside

/-- The first pass goes over both units in step. -/
theorem tracksAt_statements {ahead : Prop} {body body' : List Stmt} (along : W.Along ahead body body') :
    ∀ {v v' : SymbolTable}, (ahead → W.Before n v v') → (¬ahead → W.Inside n v v') →
      Reporting.TracksAt (W.Inside n) W.Walked (statements declare body) v (statements declare body') v' := by
  induction along with
  | nil => exact fun _ inside => Reporting.tracksAt_pure .nil (inside id)
  | @other ahead s s' body body' same rest ih =>
    intro v v' before inside
    by_cases still : ahead
    · refine ((before still).statement same).bind fun w w' u u' walked before => ?_
      exact (ih (fun _ => before) fun gone => absurd still gone).bind fun ws ws' _ _ walkeds inside =>
        Reporting.tracksAt_pure (.other walked walkeds) inside
    · refine ((inside still).statement same).bind fun w w' u u' walked inside => ?_
      exact (ih (fun come => absurd come still) fun _ => inside).bind fun ws ws' _ _ walkeds inside =>
        Reporting.tracksAt_pure (.other walked walkeds) inside
  | @extension ahead f span body body' member rest ih =>
    intro v v' before inside
    have extension : (v.decl f.id).isExtension = true := by
      by_cases still : ahead
      · exact (before still).extension member
      · obtain ⟨-, -, -, extensions⟩ := inside still
        exact extensions f member
    refine Reporting.tracksAt_bind_left (x := Signature.statement declare (.declaration f.id span))
      (a := Stmt.declaration f.id span) (u := v) (fun ρ =>
      Reporting.ends_bind.mpr ⟨(), ρ, v, ends_declare_extension extension ρ, Reporting.ends_pure.mpr ⟨rfl, rfl, rfl⟩⟩) ?_
    intro ρ ρ' ws ρ₁ u reports run
    obtain ⟨rest', ρ₂, t₂, first, last⟩ := Reporting.ends_bind.mp run
    obtain ⟨rfl, rfl, rfl⟩ := Reporting.ends_pure.mp last
    obtain ⟨ws', ρ₁', u', run', walked, after⟩ := ih before inside reports first
    exact ⟨ws', ρ₁', u', run', .extension member walked, after⟩
  | @cls span span' body body' rest ih =>
    intro v v' before _
    have held : (W.pairing True True).left.held W.cls.id = Pairing.right.held W.cls'.id :=
      (W.exact_pairing True True).held_iff.mpr (.extra (.inl ⟨trivial, rfl, rfl⟩))
    have visited : Reporting.TracksAt (W.Inside n)
        (fun w w' => w.Matches (W.pairing True True).left Pairing.right w')
        (Signature.statement declare (.declaration W.cls.id span)) v
        (Signature.statement declare (.declaration W.cls'.id span')) v' :=
      ((before trivial).declare_cls).bind fun _ _ _ _ _ inside =>
        Reporting.tracksAt_pure (.declaration held) inside
    refine visited.bind fun w w' u u' walked inside => ?_
    exact (ih False.elim fun _ => inside).bind fun ws ws' _ _ walkeds inside =>
      Reporting.tracksAt_pure (.other walked walkeds) inside

end Twins

/-! ## Both units resolved

Both passes over the units report the same, and leave tables and units that match.
-/

open SymbolTable Signature

namespace Twins

variable {W : Twins} {n : Nat} {v v' : SymbolTable}

/-- The matching from where the first pass has been done. -/
noncomputable abbrev after {v v' : SymbolTable} (since : W.Since v v') : Matching :=
  W.matching True True False (fun _ => trivial) False.elim since

theorem Inside.after (h : W.Inside n v v') : ∃ since : W.Since v v', (after since).Joins n v v' ∧
    ∀ f ∈ W.extensions, (v.decl f.id).isExtension = true := by
  obtain ⟨since, joins, bodies, extensions⟩ := h
  refine ⟨since, joins_settled since joins (settled_refl _ joins.confined.ordered joins.confined.layered)
    (settled_refl _ joins.confined'.ordered joins.confined'.layered) (fun _ => rfl) (fun _ => trivial)
    False.elim since (fun _ => ?_) joins.bounded, extensions⟩
  exact (W.fits_during since).allMatch_through (W.fits_matching (fun _ => trivial) False.elim since) id
    False.elim bodies

/-- Without extensions, what has become of statements that go along with each other matches. -/
theorem matches_walked (since : W.Since v v') (joins : (after since).Joins n v v')
    (extensions : ∀ f ∈ W.extensions, (v.decl f.id).isExtension = true) {body body' : List Stmt}
    (walked : W.Walked body body') : Stmt.AllMatch (W.pairing True True).left Pairing.right
      (withoutExtensions v body) (withoutExtensions v' body') := by
  induction walked with
  | nil => exact .nil
  | @other s s' body body' same rest ih =>
    have split (t : SymbolTable) (s : Stmt) (rest : List Stmt) :
        withoutExtensions t (s :: rest) = withoutExtensions t [s] ++ withoutExtensions t rest :=
      List.filter_append [s] rest
    rw [split, split v']
    exact (matches_withoutExtensions joins (.cons same .nil)).append ih
  | @extension f span body body' member rest ih =>
    rw [withoutExtensions_cons]
    simpa [Stmt.declaration?, extensions f member] using ih

theorem kindless_frame {t : SymbolTable} {us : List SourceUnit} (reached : Reached t us) {f : Frame}
    (stands : f.Stands t) : (t.enter .global).Kindless f.id where
  sound := reached.sound.1.enter _
  kind := by
    show (t.decl f.id).typeIn? .kind = _
    rw [stands.decl]
    rfl

/-- Both passes over both units end alike. -/
theorem tracks_resolve (W : Twins) {unit unit' : SourceUnit} (scope : unit.scope = .global)
    (scope' : unit'.scope = .global) (along : W.Along True unit.body unit'.body) {u : SourceUnit}
    {reports : List Diagnostic} {z : SymbolTable} (run : unit.resolve.run W.t = ((u, reports), z)) :
    ∃ (u' : SourceUnit) (reports' : List Diagnostic) (z' b b' : SymbolTable) (since : W.Since b b') (n : Nat),
      unit'.resolve.run W.t' = ((u', reports'), z') ∧ Reporting.SameReports reports reports' ∧
      Stmt.AllMatch (W.pairing True True).left Pairing.right u.body u'.body ∧ (after since).Joins n z z' := by
  obtain ⟨us, reached⟩ := W.reached
  obtain ⟨us', reached'⟩ := W.reached'
  obtain ⟨u₁, reports₁, t₁, first⟩ : ∃ u₁ reports₁ t₁, unit.resolveSignatures.run W.t = ((u₁, reports₁), t₁) :=
    ⟨_, _, _, rfl⟩
  obtain ⟨u₂, reports₂, t₂, second⟩ : ∃ u₂ reports₂ t₂, u₁.resolveDefinitions.run t₁ = ((u₂, reports₂), t₂) :=
    ⟨_, _, _, rfl⟩
  have whole := SourceUnit.run_resolve first second
  obtain ⟨same, rfl⟩ := Prod.mk.inj (run.symm.trans whole)
  obtain ⟨rfl, rfl⟩ := Prod.mk.inj same
  -- The first pass.
  have lt : ScopeId.global.index < W.t.scopes.size := by
    obtain ⟨rank, built⟩ := W.built
    exact built.global
  have before : W.Before W.t'.decls.size (W.t.enter .global) (W.t'.enter .global) :=
    ⟨W.joins_before.enter W.before.global lt, kindless_frame reached (W.frames _ (List.mem_cons_self ..)).1,
      kindless_frame reached' W.frame'⟩
  have firstPass : Reporting.TracksAt (fun v v' => ∃ (b b' : SymbolTable) (since : W.Since b b'),
      (after since).Joins W.t'.decls.size v v')
      (Stmt.AllMatch (W.pairing True True).left Pairing.right)
      (Reporting.under unit.scope (sequence declare unit.body)) W.t
      (Reporting.under unit'.scope (sequence declare unit'.body)) W.t' := by
    rw [scope, scope']
    refine Reporting.TracksAt.under (S := W.Inside W.t'.decls.size) ?_ ?_
    · refine (tracksAt_statements along (fun _ => before) fun gone => absurd trivial gone).bind
        fun ws ws' v v' walked inside => ?_
      obtain ⟨since, joins, extensions⟩ := inside.after
      intro ρ ρ' a ρ₁ u reports run
      obtain ⟨rfl, rfl, rfl⟩ := Reporting.ends_pure.mp run
      exact ⟨_, ρ', v', rfl, matches_walked since joins extensions walked, reports, inside⟩
    · intro v v' inside
      obtain ⟨since, joins, -⟩ := inside.after
      exact ⟨v, v', since, joins.leave⟩
  unfold SourceUnit.resolveSignatures at first
  rw [Reporting.run_collect] at first
  obtain ⟨body, ρ₁, t₁, walk, rest⟩ := Reporting.ends_bind.mp first
  obtain ⟨rfl, rfl, rfl⟩ := Reporting.ends_pure.mp rest
  obtain ⟨body', ρ₁', t₁', walk', bodies, alike, b, b', since, joins⟩ := firstPass .nil walk
  have first' : unit'.resolveSignatures.run W.t' = (({ unit' with body := body' }, ρ₁'), t₁') := by
    unfold SourceUnit.resolveSignatures
    rw [Reporting.run_collect]
    exact Reporting.ends_bind.mpr ⟨_, _, _, walk', Reporting.ends_pure.mpr ⟨rfl, rfl, rfl⟩⟩
  -- The second pass.
  have smaller : b'.decls.size ≤ b.decls.size := by
    obtain ⟨k, size, size'⟩ := since.decls
    have smaller := W.smaller
    omega
  have lt₁ : ScopeId.global.index < t₁.scopes.size := by
    obtain ⟨_, layers⟩ := joins.confined.layered
    exact layers.global
  have secondPass := (Definition.tracks_statements (M := after since) (Definition.passesInStep_define smaller _ _)
    (.none) body body' bodies (List.Subset.refl _) (joins.enter (after since).global lt₁)).under
      fun _ _ (joins : (after since).Joins W.t'.decls.size _ _) => joins.leave
  unfold SourceUnit.resolveDefinitions at second
  rw [Reporting.run_collect] at second
  obtain ⟨last, ρ₂, t₂, walk₂, rest₂⟩ := Reporting.ends_bind.mp second
  obtain ⟨rfl, rfl, rfl⟩ := Reporting.ends_pure.mp rest₂
  rw [show (SourceUnit.mk body unit.scope).scope = .global from scope] at walk₂
  obtain ⟨last', ρ₂', t₂', walk₂', walked, alike₂, joins₂⟩ := secondPass .nil walk₂
  have second' : ({ unit' with body := body' } : SourceUnit).resolveDefinitions.run t₁' =
      (({ unit' with body := last' }, ρ₂'), t₂') := by
    unfold SourceUnit.resolveDefinitions
    rw [Reporting.run_collect]
    refine Reporting.ends_bind.mpr ⟨_, _, _, ?_, Reporting.ends_pure.mpr ⟨rfl, rfl, rfl⟩⟩
    show Reporting.Ends (Reporting.under unit'.scope _) _ _ _ _ _
    rw [scope']
    exact walk₂'
  exact ⟨_, _, _, b, b', since, _, SourceUnit.run_resolve first' second', List.rel_append alike alike₂,
    walked.same, joins₂⟩

end Twins

end Deferral
