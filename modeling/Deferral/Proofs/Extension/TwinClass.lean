import Deferral.Proofs.Extension.TwinAbsorbing

/-!
# Going inside the class

The tables match inside the class as well as soon as it has taken in its extensions and has had its members
taken out.
-/

namespace Deferral

open Resolution SymbolTable
open Signature (withoutMembers)

namespace Twins

variable {W : Twins} {n m : Nat} {u u' w : SymbolTable} {x x' : DeclId} {s s' : ScopeId} {within holding : Prop}

/-! ## Twins -/

theorem Twin.ne (h : W.Twin within x x') : (∀ f ∈ W.cls :: W.extensions, f.id ≠ x) ∧ x' ≠ W.cls'.id := by
  obtain ⟨p, member, a, lt, rfl, rfl⟩ := h
  refine ⟨fun f frame => member.decl_ne lt frame, fun same => member.not_head'.1 ?_⟩
  rw [← same]
  refine ⟨Inset.start_le_decl a, Inset.decl_lt_stop ?_⟩
  rw [show p.2.table = p.1.table from congrArg Fragment.table (W.same p member.mem)]
  exact lt

theorem Twin.paired (h : W.Twin within x x') (holding : Prop) :
    (W.pairing within holding).left.decl x = Pairing.right.decl x' ∧
      (W.pairing within holding).left.held x = Pairing.right.held x' := by
  obtain ⟨p, member, a, lt, rfl, rfl⟩ := h
  exact ⟨member.covers.decl_eq (W.exact_pairing within holding) lt,
    member.covers.held_eq (W.exact_pairing within holding) lt⟩

theorem Late.paired (h : Late W.t.decls.size W.t'.decls.size x.index x'.index) (within holding : Prop) :
    (W.pairing within holding).left.decl x = Pairing.right.decl x' ∧
      (W.pairing within holding).left.held x = Pairing.right.held x' :=
  ⟨(W.exact_pairing within holding).decl_iff.mpr (.extra (.inr h)),
    (W.exact_pairing within holding).held_iff.mpr (.extra (.inr h))⟩

theorem Late.ne (h : Late W.t.decls.size W.t'.decls.size x.index x'.index) :
    (∀ f ∈ W.cls :: W.extensions, f.id ≠ x) ∧ x' ≠ W.cls'.id := by
  obtain ⟨k, index, index'⟩ := h
  constructor
  · rintro f frame rfl
    have lt := (W.frames f frame).1.declared
    omega
  · rintro rfl
    have lt := W.cls_lt'
    omega

/-- Twins are outside the class or inside. -/
theorem Twin.cases (h : W.Twin True x x') : W.Twin False x x' ∨ ∃ p ∈ W.inside, ∃ a : DeclId,
    a.index < p.1.table.decls.size ∧ x = p.1.shift.decl a ∧ x' = p.2.shift.decl a := by
  obtain ⟨p, member | ⟨-, member⟩, rest⟩ := h
  · exact .inl ⟨p, .inl member, rest⟩
  · exact .inr ⟨p, member, rest⟩

theorem TwinScope.cases (h : W.TwinScope True s s') : W.TwinScope False s s' ∨ ∃ p ∈ W.inside,
    ∃ a : ScopeId, a ≠ .global ∧ a.index < p.1.table.scopes.size ∧ s = p.1.shift.scope a ∧
      s' = p.2.shift.scope a := by
  obtain ⟨p, member | ⟨-, member⟩, rest⟩ := h
  · exact .inl ⟨p, .inl member, rest⟩
  · exact .inr ⟨p, member, rest⟩

theorem TwinScope.ne_frame (h : W.TwinScope within s s') : ∀ f ∈ W.cls :: W.extensions, f.scope ≠ s := by
  obtain ⟨p, member, a, inner, lt, rfl, -⟩ := h
  intro f frame same
  refine (member.not_head frame).2 ?_
  rw [same]
  exact ⟨Inset.start_le_scope inner, Inset.scope_lt_stop inner lt⟩

theorem TwinScope.paired (h : W.TwinScope within s s') (holding : Prop) :
    (W.pairing within holding).left.scope s = Pairing.right.scope s' := by
  obtain ⟨p, member, a, inner, lt, rfl, rfl⟩ := h
  exact member.covers.scope_eq (W.exact_pairing within holding) lt

/-! ## The tables match -/

section Before

variable (h : W.before.Joins n u u') (taken : TakesIn W.cls.id W.cls.scope (W.extensions.map Frame.id) u w)

include h taken

theorem since_within : W.Since (withoutMembers w W.cls.id) (withoutMembers u' W.cls'.id) where
  decls := by
    obtain ⟨k, size, size'⟩ := h.decls
    refine ⟨k, ?_, ?_⟩
    · simp only [withoutMembers, size_modifyDecl, taken.decls]
      exact size
    · simp only [withoutMembers, size_modifyDecl]
      exact size'
  scopes := by
    obtain ⟨k, size, size'⟩ := h.scopes
    exact ⟨k, taken.scopes.trans size, size'⟩
  saved := taken.saved.trans h.confined.saved
  saved' := h.confined'.saved

/-- The matching from where the class has been visited. -/
noncomputable abbrev during {v v' : SymbolTable} (since : W.Since v v') : Matching :=
  W.matching True False True False.elim (fun _ => id) since

omit h taken in
theorem fits_during {v v' : SymbolTable} (since : W.Since v v') : W.Fits True False (during since) :=
  fits_matching ..

/-- Paired declarations match. -/
theorem matches_within (since : W.Since (withoutMembers w W.cls.id) (withoutMembers u' W.cls'.id))
    (paired : (during since).left.decl x = (during since).right.decl x') :
    ((withoutMembers w W.cls.id).decl x).Matches (during since).left (during since).right
      ((withoutMembers u' W.cls'.id).decl x') := by
  have through {d d' : Decl} (same : d.Matches W.before.left W.before.right d') :
      d.Matches (during since).left (during since).right d' :=
    W.fits_before.matches_through (fits_during since) False.elim id same
  rcases twin_of_decl paired with twin | ⟨rfl, rfl⟩ | late
  · rw [decl_within taken twin.ne.1, decl_modifyDecl_of_ne twin.ne.2]
    rcases twin.cases with old | ⟨p, inside, a, lt, rfl, rfl⟩
    · exact through (h.decl (old.paired False).1)
    · rw [h.confined.decl _ (W.not_open inside lt), h.confined'.decl _ (W.not_open' inside lt)]
      exact (slot_inside inside).matches_decl False lt
  · obtain ⟨f, same⟩ := exists_mapMembers taken W.cls.id
    have lt : W.cls'.id.index < u'.decls.size := by
      obtain ⟨k, -, size'⟩ := h.decls
      have lt' := W.cls_lt'
      have base : W.before.base'.decls.size = W.t'.decls.size := rfl
      omega
    rw [same, show (withoutMembers u' W.cls'.id).decl W.cls'.id = _ from decl_modifyDecl_self lt _]
    exact (through (h.decl paired_cls)).mapMembers _ _
  · rw [decl_within taken late.ne.1, decl_modifyDecl_of_ne late.ne.2]
    exact through (h.decl (late.paired False False).1)

theorem allMatch_within (since : W.Since (withoutMembers w W.cls.id) (withoutMembers u' W.cls'.id))
    (paired : (during since).left.held x = (during since).right.held x') :
    Stmt.AllMatch (during since).left (during since).right ((withoutMembers w W.cls.id).members x)
      ((withoutMembers u' W.cls'.id).members x') := by
  have through {b b' : List Stmt} (same : Stmt.AllMatch W.before.left W.before.right b b') :
      Stmt.AllMatch (during since).left (during since).right b b' :=
    W.fits_before.allMatch_through (fits_during since) False.elim id same
  have same (ne : (∀ f ∈ W.cls :: W.extensions, f.id ≠ x) ∧ x' ≠ W.cls'.id) :
      (withoutMembers w W.cls.id).members x = u.members x ∧
        (withoutMembers u' W.cls'.id).members x' = u'.members x' := by
    unfold SymbolTable.members
    rw [decl_within taken ne.1, decl_modifyDecl_of_ne ne.2]
    exact ⟨rfl, rfl⟩
  rcases twin_of_held paired with twin | ⟨held, -⟩ | late
  · rw [(same twin.ne).1, (same twin.ne).2]
    rcases twin.cases with old | ⟨p, inside, a, lt, rfl, rfl⟩
    · exact through (h.members (old.paired False).2)
    · rw [SymbolTable.members, SymbolTable.members, h.confined.decl _ (W.not_open inside lt),
        h.confined'.decl _ (W.not_open' inside lt)]
      exact (slot_inside inside).allMatch_members False lt
  · exact held.elim
  · rw [(same late.ne).1, (same late.ne).2]
    exact through (h.members (late.paired False False).2)

/-- The scope of the class has the names of what is inside, and lies at the outermost level. -/
theorem aligned_class (since : W.Since (withoutMembers w W.cls.id) (withoutMembers u' W.cls'.id)) :
    (during since).Aligned ((withoutMembers w W.cls.id).scope W.cls.scope)
      ((withoutMembers u' W.cls'.id).scope W.cls'.scope) := by
  have right : (withoutMembers u' W.cls'.id).scope W.cls'.scope = W.t'.scope W.cls'.scope :=
    h.confined'.scope _ W.not_openScope_frame'
  have left : ((withoutMembers w W.cls.id).scope W.cls.scope).parent = some .global := by
    refine taken.parent.trans ?_
    rw [scope_frame h (List.mem_cons_self ..)]
    exact (W.frames _ (List.mem_cons_self ..)).1.parent
  refine ⟨?_, fun name => ?_⟩
  · rw [left, right, W.frame'.parent]
    exact congrArg some (during since).global
  · rw [find?_within h taken, right, W.frame'.names, W.parts']
    exact (fits_during since).map_findAll name W.inside fun p inside => slot_inside inside

theorem scope_joins (since : W.Since (withoutMembers w W.cls.id) (withoutMembers u' W.cls'.id))
    (paired : (during since).left.scope s = (during since).right.scope s') :
    (during since).Aligned ((withoutMembers w W.cls.id).scope s) ((withoutMembers u' W.cls'.id).scope s') ∨
      ∃ outer, (during since).Detours ((withoutMembers w W.cls.id).scope s) outer
        ((withoutMembers w W.cls.id).scope outer) s' ((withoutMembers u' W.cls'.id).scope s') := by
  have through {a a' : Scope} (same : W.before.Aligned a a') : (during since).Aligned a a' :=
    W.fits_before.aligned_through (fits_during since) False.elim id same
  have old (same : W.before.left.scope s = W.before.right.scope s') (ne : s' ≠ W.cls'.scope)
      (frames : ∀ f ∈ W.cls :: W.extensions, f.scope ≠ s) : (during since).Aligned
        ((withoutMembers w W.cls.id).scope s) ((withoutMembers u' W.cls'.id).scope s') := by
    rw [scope_within h taken frames]
    exact through (h.aligned (plain_of_paired same ne) same)
  rcases twin_of_scope paired with twin | ⟨rfl, rfl⟩ | late | ⟨-, ⟨f, member, rfl⟩, rfl⟩
  · rcases twin.cases with outside | ⟨p, inside, a, inner, lt, rfl, rfl⟩
    · exact .inl (old (outside.paired False) twin.ne twin.ne_frame)
    · refine .inl ?_
      obtain ⟨stands, stands'⟩ := W.stands p (slot_inside inside).mem
      rw [scope_within h taken twin.ne_frame, h.confined.scope _ (W.not_openScope inside inner lt)]
      show (during since).Aligned _ (u'.scope _)
      rw [h.confined'.scope _ (W.not_openScope' inside inner lt)]
      exact (fits_during since).aligned (slot_inside inside) stands stands' inner lt
  · exact .inl (old W.before.global W.frame'.inner.symm fun f member => (W.frames f member).1.inner)
  · have same : W.before.left.scope s = W.before.right.scope s' :=
      (W.exact_pairing False False).scope_iff.mpr (.extra (.inr (.inl late)))
    obtain ⟨k, index, index'⟩ := late
    refine .inl (old same ?_ ?_)
    · rintro rfl
      have lt := W.frame'.opened
      omega
    · rintro f member rfl
      have lt := (W.frames f member).1.opened
      omega
  · rcases List.mem_cons.mp member with rfl | extension
    · exact .inl (aligned_class h taken since)
    · refine .inr ⟨W.cls.scope, ?_, ?_, aligned_class h taken since, fun name set found =>
        find?_extension h taken extension found⟩
      · rw [scope_extension h taken extension]
      · exact (W.exact_pairing True False).scope_iff.mpr
          (.extra (.inr (.inr ⟨trivial, ⟨W.cls, List.mem_cons_self .., rfl⟩, rfl⟩)))

theorem single_joins (since : W.Since (withoutMembers w W.cls.id) (withoutMembers u' W.cls'.id))
    (paired : (during since).left.scope s = (during since).right.scope s') :
    (during since).Plain s ∨ Matching.Single ((withoutMembers w W.cls.id).scope s) ∧
      Matching.Single ((withoutMembers u' W.cls'.id).scope s') := by
  by_cases here : s' = W.cls'.scope
  · subst here
    have right : (withoutMembers u' W.cls'.id).scope W.cls'.scope = W.t'.scope W.cls'.scope :=
      h.confined'.scope _ W.not_openScope_frame'
    have single : Matching.Single ((withoutMembers w W.cls.id).scope W.cls.scope) := fun name set found =>
      length_le_one.1 ((find?_within h taken name).symm.trans found)
    refine .inr ⟨?_, fun name set found => ?_⟩
    · rcases twin_of_scope paired with twin | ⟨-, same⟩ | ⟨k, -, index⟩ | ⟨-, ⟨f, member, rfl⟩, -⟩
      · exact absurd rfl twin.ne
      · exact absurd same W.frame'.inner
      · have lt := W.frame'.opened
        omega
      · rcases List.mem_cons.mp member with rfl | extension
        · exact single
        · exact fun name set found => single name set (find?_extension h taken extension found)
    · rw [right, W.frame'.names, W.parts'] at found
      exact length_le_one.2 found
  · exact .inl (plain_of_paired paired here)

theorem lacks_joins (since : W.Since (withoutMembers w W.cls.id) (withoutMembers u' W.cls'.id)) {name : String}
    {set : Overloads} (found : ((withoutMembers w W.cls.id).scope s).find? name = some set) :
    (∀ d ∈ set, (during since).keep d = true) ∨
      (during since).Lacks (withoutMembers w W.cls.id).decl s name set := by
  by_cases frame : ∃ f ∈ W.cls :: W.extensions, f.scope = s
  · obtain ⟨f, member, rfl⟩ := frame
    refine .inl (keep_of_findAll (show Inset.findAll (W.inside.map Prod.fst) name = some set from ?_))
    rw [← find?_within h taken]
    rcases List.mem_cons.mp member with rfl | extension
    · exact found
    · exact find?_extension h taken extension found
  · rw [scope_within h taken fun f member same => frame ⟨f, member, same⟩] at found
    have kept (x : DeclId) : ((withoutMembers w W.cls.id).decl x).isExtension = (u.decl x).isExtension ∧
        ((withoutMembers w W.cls.id).decl x).isPrimaryClass = (u.decl x).isPrimaryClass := by
      obtain ⟨f, same⟩ := exists_mapMembers taken x
      rw [same, Decl.isExtension_mapMembers, Decl.isPrimaryClass_mapMembers]
      exact ⟨rfl, rfl⟩
    refine (h.lacks found).imp id fun lacks => ⟨lacks.scope, lacks.name, ?_, fun e member dropped => ?_⟩
    · obtain ⟨c, member, keeps, primary⟩ := lacks.hasClass
      exact ⟨c, member, keeps, (kept c).2.trans primary⟩
    · exact (kept e).1.trans (lacks.extensions e member dropped)

omit h taken in
/-- What tables say about paired declarations is the same if it was the same when the units had been read,
and has stayed so for what was paired then and as it was for all else. -/
theorem eq_of_paired {α : Type} {f : SymbolTable → DeclId → α} {a : α} (start : ∀ x, f W.t x = a)
    (start' : ∀ x', f W.t' x' = a)
    (old : ∀ {x x'}, W.before.left.decl x = W.before.right.decl x' → f u' x' = f u x)
    (frozen : ∀ x, ¬W.Open x → f u x = f W.t x) (frozen' : ∀ x', ¬W.Open' x' → f u' x' = f W.t' x')
    (paired : (W.pairing True False).left.decl x = Pairing.right.decl x') : f u' x' = f u x := by
  rcases twin_of_decl paired with twin | ⟨rfl, rfl⟩ | late
  · rcases twin.cases with outside | ⟨p, inside, a, lt, rfl, rfl⟩
    · exact old (outside.paired False).1
    · rw [frozen _ (W.not_open inside lt), frozen' _ (W.not_open' inside lt), start, start']
  · exact old paired_cls
  · exact old (late.paired False False).1

/-- An extension holds its members, as the class does not. -/
theorem held_of_isExtension (since : W.Since (withoutMembers w W.cls.id) (withoutMembers u' W.cls'.id))
    (paired : (during since).left.decl x = (during since).right.decl x')
    (extension : ((withoutMembers w W.cls.id).decl x).isExtension = true) :
    (during since).left.held x = (during since).right.held x' := by
  rcases twin_of_decl paired with twin | ⟨rfl, rfl⟩ | late
  · exact (twin.paired False).2
  · obtain ⟨f, same⟩ := exists_mapMembers taken W.cls.id
    rw [same, Decl.isExtension_mapMembers,
      not_isExtension_of_isPrimaryClass (isPrimaryClass_cls h).1] at extension
    cases extension
  · exact (late.paired True False).2

/-- No other class at the outermost level has the name of the class. -/
theorem name_ne_within (since : W.Since (withoutMembers w W.cls.id) (withoutMembers u' W.cls'.id))
    (paired : (during since).left.held x = (during since).right.held x')
    (primary : ((withoutMembers w W.cls.id).decl x).isPrimaryClass = true)
    (global : ((withoutMembers w W.cls.id).decl x).scope = .global) :
    ((withoutMembers w W.cls.id).decl x).name ≠ W.cls.name := by
  obtain ⟨f, same⟩ := exists_mapMembers taken x
  rw [same, Decl.isPrimaryClass_mapMembers] at primary
  rw [same, Decl.scope_mapMembers] at global
  rw [same, Decl.name_mapMembers]
  rcases twin_of_held paired with twin | ⟨held, -⟩ | late
  · rcases twin.cases with outside | ⟨p, inside, a, lt, rfl, rfl⟩
    · exact h.apart trivial (outside.paired False).2 primary global
    · rw [h.confined.decl _ (W.not_open inside lt)] at global ⊢
      exact (slot_inside inside).name_ne lt global
  · exact held.elim
  · exact h.apart trivial (late.paired False False).2 primary global

/-- The tables match inside as well. -/
theorem joins_within (ordered : w.Ordered) (layered : w.Layered)
    (since : W.Since (withoutMembers w W.cls.id) (withoutMembers u' W.cls'.id))
    (bounded : (withoutMembers u' W.cls'.id).Bounded m) :
    (during since).Joins m (withoutMembers w W.cls.id) (withoutMembers u' W.cls'.id) := by
  refine
  { decl := matches_within h taken since
    members := allMatch_within h taken since
    extension := fun _ => held_of_isExtension h taken since
    apart := fun _ => name_ne_within h taken since
    scope := scope_joins h taken since
    single := fun _ => single_joins h taken since
    lacks := lacks_joins h taken since
    own := rfl
    active := ?active
    constant := fun {x x'} paired => ?constant
    binding := fun {x x'} paired => ?binding
    decls := ⟨0, rfl, rfl⟩
    scopes := ⟨0, rfl, rfl⟩
    confined := .refl (layered.imp fun _ layers => layers.rests (.mapMembers w W.cls.id _)) ordered
    confined' := .refl (h.confined'.layered.imp fun _ layers => layers.rests (.mapMembers u' W.cls'.id _))
      h.confined'.ordered
    bounded }
  case active =>
    show w.active.map _ = u'.active.map _
    rw [taken.active]
    exact W.fits_before.active_through (fits_during since) False.elim id h.active
  case constant =>
    show u'.constant? x' = w.constant? x
    rw [show w.constant? x = u.constant? x from congrArg (List.lookup x) taken.constants]
    refine eq_of_paired (f := SymbolTable.constant?) (a := none) (fun x => ?_) (fun x' => ?_) h.constant
      h.confined.constant h.confined'.constant paired
    · rw [SymbolTable.constant?, W.constants.1]
      rfl
    · rw [SymbolTable.constant?, W.constants.2]
      rfl
  case binding =>
    show x' ∈ u'.binding ↔ x ∈ w.binding
    rw [taken.binding]
    refine (eq_of_paired (f := fun t x => x ∈ t.binding) (a := False) (fun x => ?_) (fun x' => ?_)
      (fun paired => propext (h.binding paired)) (fun x other => propext (h.confined.binding x other))
      (fun x' other => propext (h.confined'.binding x' other)) paired).to_iff
    · simp [W.binding.1]
    · simp [W.binding.2]

end Before

end Twins

/-! ## The class with its members again

Between two steps members of the class may be put back and the extensions may give up its name: the tables
match as before.
-/

open SymbolTable

namespace Twins

variable {W : Twins} {n k : Nat} {b b' v v' z z' : SymbolTable} {x x' : DeclId} {s s' : ScopeId}
  {holding signing : Prop}

theorem Since.trans (since : W.Since b b')
    (decls : ∃ k, v.decls.size = b.decls.size + k ∧ v'.decls.size = b'.decls.size + k)
    (scopes : ∃ k, v.scopes.size = b.scopes.size + k ∧ v'.scopes.size = b'.scopes.size + k)
    (saved : v.saved = b.saved) (saved' : v'.saved = b'.saved) : W.Since v v' where
  decls := by
    obtain ⟨i, size, size'⟩ := since.decls
    obtain ⟨j, more, more'⟩ := decls
    exact ⟨i + j, by omega, by omega⟩
  scopes := by
    obtain ⟨i, size, size'⟩ := since.scopes
    obtain ⟨j, more, more'⟩ := scopes
    exact ⟨i + j, by omega, by omega⟩
  saved := saved.trans since.saved
  saved' := saved'.trans since.saved'

/-- Nothing has changed but the members of the class `cls`, and that the name of the class may have been
given up in the global scope by what is not kept. -/
structure Settled (W : Twins) (cls : DeclId) (v z : SymbolTable) : Prop where
  decl : ∀ x, ∃ f, z.decl x = (v.decl x).mapMembers f
  members : ∀ x ≠ cls, z.members x = v.members x
  parent : ∀ s, (z.scope s).parent = (v.scope s).parent
  names : ∀ s name, s ≠ .global ∨ name ≠ W.cls.name → (z.scope s).find? name = (v.scope s).find? name
  set : ∃ p : DeclId → Bool, (z.scope .global).find? W.cls.name =
    ((v.scope .global).find? W.cls.name).map (List.filter p) ∧
    ∀ set, (v.scope .global).find? W.cls.name = some set → ∀ d ∈ set, W.keep d = true → p d = true
  constants : z.constants = v.constants
  binding : z.binding = v.binding
  active : z.active = v.active
  decls : z.decls.size = v.decls.size
  scopes : z.scopes.size = v.scopes.size
  saved : z.saved = v.saved
  ordered : z.Ordered
  layered : z.Layered

namespace Settled

variable {cls : DeclId} {name : String} {set : Overloads} (h : W.Settled cls v z)

include h

theorem isExtension (x : DeclId) : (z.decl x).isExtension = (v.decl x).isExtension := by
  obtain ⟨f, same⟩ := h.decl x
  rw [same, Decl.isExtension_mapMembers]

theorem isPrimaryClass (x : DeclId) : (z.decl x).isPrimaryClass = (v.decl x).isPrimaryClass := by
  obtain ⟨f, same⟩ := h.decl x
  rw [same, Decl.isPrimaryClass_mapMembers]

theorem scope_name (x : DeclId) : (z.decl x).scope = (v.decl x).scope ∧ (z.decl x).name = (v.decl x).name := by
  obtain ⟨f, same⟩ := h.decl x
  rw [same, Decl.scope_mapMembers, Decl.name_mapMembers]
  exact ⟨rfl, rfl⟩

/-- As far as they are kept, names lead to the same. -/
theorem map_shown {M : Matching} (keep : M.keep = W.keep) (s : ScopeId) (name : String) :
    ((z.scope s).find? name).map M.shown = ((v.scope s).find? name).map M.shown := by
  by_cases here : s ≠ .global ∨ name ≠ W.cls.name
  · rw [h.names s name here]
  · obtain ⟨rfl, rfl⟩ : s = .global ∧ name = W.cls.name := by simpa using here
    obtain ⟨p, set, keeps⟩ := h.set
    rw [set]
    cases found : (v.scope .global).find? W.cls.name with
    | none => rfl
    | some all =>
      refine congrArg some ?_
      unfold Matching.shown
      rw [keep, List.filter_filter]
      refine congrArg _ (List.filter_congr fun d member => ?_)
      cases kept : W.keep d with
      | false => simp
      | true => simp [keeps all found d member kept]

theorem aligned {M : Matching} (keep : M.keep = W.keep) {a' : Scope} (aligned : M.Aligned (v.scope s) a') :
    M.Aligned (z.scope s) a' where
  parent := by
    rw [h.parent]
    exact aligned.parent
  names name := by
    rw [h.map_shown keep]
    exact aligned.names name

/-- A name leads to some of what it led to, and to all of it that is kept. -/
theorem exists_filter (found : (z.scope s).find? name = some set) :
    ∃ (p : DeclId → Bool) (all : Overloads), (v.scope s).find? name = some all ∧ set = all.filter p ∧
      ∀ d ∈ all, W.keep d = true → p d = true := by
  by_cases here : s ≠ .global ∨ name ≠ W.cls.name
  · rw [h.names s name here] at found
    exact ⟨fun _ => true, set, found, (List.filter_eq_self.mpr fun _ _ => rfl).symm, fun _ _ _ => rfl⟩
  · obtain ⟨rfl, rfl⟩ : s = .global ∧ name = W.cls.name := by simpa using here
    obtain ⟨p, filtered, keeps⟩ := h.set
    rw [filtered] at found
    obtain ⟨all, known, rfl⟩ := Option.map_eq_some_iff.mp found
    exact ⟨p, all, known, rfl, keeps all known⟩

theorem single (single : Matching.Single (v.scope s)) : Matching.Single (z.scope s) := fun name set found => by
  obtain ⟨p, all, known, rfl, -⟩ := h.exists_filter found
  exact (List.length_filter_le ..).trans (single name all known)

/-- What is not kept are still extensions that share the name of the class. -/
theorem lacks {M M' : Matching} (keep : M.keep = W.keep) (keep' : M'.keep = W.keep) (named : M'.name = M.name)
    (found : (z.scope s).find? name = some set)
    (lacks : ∀ all, (v.scope s).find? name = some all →
      (∀ d ∈ all, M.keep d = true) ∨ M.Lacks v.decl s name all) :
    (∀ d ∈ set, M'.keep d = true) ∨ M'.Lacks z.decl s name set := by
  obtain ⟨p, all, known, rfl, keeps⟩ := h.exists_filter found
  rw [keep'.trans keep.symm]
  refine (lacks all known).imp (fun kept d member => kept d (List.mem_filter.mp member).1) fun lacks => ?_
  refine ⟨lacks.scope, lacks.name.trans named.symm, ?_, fun e member dropped => ?_⟩
  · obtain ⟨c, member, kept, primary⟩ := lacks.hasClass
    refine ⟨c, List.mem_filter.mpr ⟨member, keeps c member (keep ▸ kept)⟩, ?_, (h.isPrimaryClass c).trans primary⟩
    rwa [keep'.trans keep.symm]
  · rw [keep'.trans keep.symm] at dropped
    exact (h.isExtension e).trans (lacks.extensions e (List.mem_filter.mp member).1 dropped)

end Settled

/-- Only the global scope belongs to what the global scope is paired with. -/
theorem eq_global_of_same (since : W.Since b b')
    (same : (during since).left.scope s = (during since).left.scope .global) : s = .global :=
  plain_of_paired (during since).global W.frame'.inner.symm s same

/-- Tables that match go on doing so, with the class among those that hold something if its members match. -/
theorem joins_settled (since : W.Since b b') (h : (during since).Joins k v v')
    (left : W.Settled W.cls.id v z) (right : W.Settled W.cls'.id v' z')
    (scopes' : ∀ s, z'.scope s = v'.scope s) (merged : holding → True) (apart : signing → ¬holding)
    (since' : W.Since z z') (members : holding → Stmt.AllMatch (W.pairing True holding).left Pairing.right
      (z.members W.cls.id) (z'.members W.cls'.id)) (bounded : z'.Bounded n) :
    (W.matching True holding signing merged apart since').Joins n z z' := by
  have fits := W.fits_during since
  have fits' : W.Fits True holding (W.matching True holding signing merged apart since') := fits_matching ..
  have aligned {s s' : ScopeId} (same : (during since).Aligned (v.scope s) (v'.scope s')) :
      (W.matching True holding signing merged apart since').Aligned (z.scope s) (z'.scope s') := by
    rw [scopes']
    exact fits.aligned_through fits' id False.elim (left.aligned fits.keep same)
  have held {x x' : DeclId} (twin : W.Twin True x x' ∨ Late W.t.decls.size W.t'.decls.size x.index x'.index)
      (holding : Prop) : (W.pairing True holding).left.held x = Pairing.right.held x' ∧
        (∀ f ∈ W.cls :: W.extensions, f.id ≠ x) ∧ x' ≠ W.cls'.id := by
    rcases twin with twin | late
    · exact ⟨(twin.paired holding).2, twin.ne⟩
    · exact ⟨(late.paired True holding).2, late.ne⟩
  refine
  { decl := fun {x x'} paired => ?decl
    members := fun {x x'} paired => ?members
    extension := fun _ {x x'} paired extension => ?extension
    apart := fun signs {x x'} paired primary global => ?apart
    scope := fun {s s'} paired => ?scope
    single := fun _ {s s'} paired => ?single
    lacks := fun found => left.lacks fits.keep fits'.keep rfl found fun _ => h.lacks
    own := rfl
    active := ?active
    constant := fun {x x'} paired => ?constant
    binding := fun {x x'} paired => ?binding
    decls := ⟨0, rfl, rfl⟩
    scopes := ⟨0, rfl, rfl⟩
    confined := .refl left.layered left.ordered
    confined' := .refl right.layered right.ordered
    bounded }
  case decl =>
    obtain ⟨f, same⟩ := left.decl x
    obtain ⟨f', same'⟩ := right.decl x'
    rw [same, same']
    exact (fits.matches_through fits' id False.elim (h.decl paired)).mapMembers f f'
  case members =>
    rcases twin_of_held paired with twin | ⟨holds, rfl, rfl⟩ | late
    · obtain ⟨old, ne, ne'⟩ := held (.inl twin) False
      rw [left.members x (ne _ (List.mem_cons_self ..)).symm, right.members x' ne']
      exact fits.allMatch_through fits' id False.elim (h.members old)
    · exact members holds
    · obtain ⟨old, ne, ne'⟩ := held (.inr late) False
      rw [left.members x (ne _ (List.mem_cons_self ..)).symm, right.members x' ne']
      exact fits.allMatch_through fits' id False.elim (h.members old)
  case extension =>
    rcases twin_of_held (h.extension trivial paired ((left.isExtension x).symm.trans extension)) with
      twin | ⟨none, -⟩ | late
    · exact (held (.inl twin) holding).1
    · exact none.elim
    · exact (held (.inr late) holding).1
  case apart =>
    have primary := (left.isPrimaryClass x).symm.trans primary
    have global := (left.scope_name x).1.symm.trans global
    rw [(left.scope_name x).2]
    rcases twin_of_held paired with twin | ⟨holds, -⟩ | late
    · exact h.apart trivial (held (.inl twin) False).1 primary global
    · exact absurd holds (apart signs)
    · exact h.apart trivial (held (.inr late) False).1 primary global
  case scope =>
    rcases h.scope paired with same | ⟨outer, detours⟩
    · exact .inl (aligned same)
    · have same : (during since).left.scope s = (during since).left.scope outer :=
        paired.trans detours.same.symm
      by_cases global : outer = .global
      · subst global
        obtain rfl := eq_global_of_same since same
        exact .inl (aligned detours.aligned)
      · have inner : s ≠ .global := by
          rintro rfl
          exact global (eq_global_of_same since same.symm)
        refine .inr ⟨outer, ?_, detours.same, aligned detours.aligned, fun name set found => ?_⟩
        · rw [left.parent]
          exact detours.inside
        · rw [left.names s name (.inl inner)] at found
          rw [left.names outer name (.inl global)]
          exact detours.names name set found
  case single =>
    refine (h.single trivial paired).imp id fun both => ⟨left.single both.1, ?_⟩
    rw [scopes']
    exact both.2
  case active =>
    rw [left.active, right.active]
    exact h.active
  case constant =>
    unfold SymbolTable.constant?
    rw [left.constants, right.constants]
    exact h.constant paired
  case binding =>
    rw [left.binding, right.binding]
    exact h.binding paired

end Twins

end Deferral
