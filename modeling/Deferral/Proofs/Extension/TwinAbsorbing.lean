import Deferral.Proofs.Extension.Twins

/-!
# A class and its extensions, and the class that has their members

Until the first pass comes to the class, nothing inside it or its extensions changes. Then the class takes in
its extensions, and from there on what is inside matches as well.
-/

namespace Deferral

open SymbolTable (joined)

namespace Twins

variable {W : Twins} {n m : Nat} {u u' : SymbolTable} {x x' : DeclId} {s s' : ScopeId}

/-! ## What nothing belongs to -/

theorem apart_of_mem {p r : Inset × Inset} (outside : r ∈ W.outside) (inside : p ∈ W.inside) :
    (Cell.part r.1).Apart (.part p.1) ∧ (Cell.part r.2).Apart (.part p.2) :=
  (List.pairwise_append.mp W.apart).2.2 r outside p inside

theorem slot_inside {p : Inset × Inset} (inside : p ∈ W.inside) : W.Slot True p := .inr ⟨trivial, inside⟩

theorem outside_of_slot {p : Inset × Inset} (h : W.Slot False p) : p ∈ W.outside := h.resolve_right And.left

theorem table_eq {p : Inset × Inset} (inside : p ∈ W.inside) : p.2.table = p.1.table :=
  congrArg Fragment.table (W.same p (List.mem_append_right _ inside))

/-- The numbers of the left table that something belongs to before the class has been visited. -/
abbrev Open (W : Twins) (x : DeclId) : Prop :=
  x ∈ Set.preimage W.before.left.decl (Set.range W.before.right.decl)

abbrev Open' (W : Twins) (x' : DeclId) : Prop :=
  x' ∈ Set.preimage W.before.right.decl (Set.range W.before.left.decl)

abbrev OpenScope (W : Twins) (s : ScopeId) : Prop :=
  s ∈ Set.preimage W.before.left.scope (Set.range W.before.right.scope)

abbrev OpenScope' (W : Twins) (s' : ScopeId) : Prop :=
  s' ∈ Set.preimage W.before.right.scope (Set.range W.before.left.scope)

variable {p : Inset × Inset} (inside : p ∈ W.inside)

include inside

theorem not_open {a : DeclId} (lt : a.index < p.1.table.decls.size) : ¬W.Open (p.1.shift.decl a) := by
  rintro ⟨x', paired⟩
  rcases twin_of_decl paired.symm with ⟨r, member, b, ltb, same, -⟩ | ⟨same, -⟩ | ⟨k, index, -⟩
  · exact (apart_of_mem (outside_of_slot member) inside).1.ne monotone_decls
      ⟨Inset.start_le_decl b, Inset.decl_lt_stop ltb⟩ ⟨Inset.start_le_decl a, Inset.decl_lt_stop lt⟩
      (congrArg DeclId.index same.symm)
  · exact (slot_inside inside).decl_ne lt (List.mem_cons_self ..) same.symm
  · have stop := Nat.lt_of_lt_of_le (Inset.decl_lt_stop lt) (W.stands p (slot_inside inside).mem).1.within.1
    exact absurd (index ▸ stop) (by simp [SymbolTable.extent])

theorem not_open' {a : DeclId} (lt : a.index < p.1.table.decls.size) : ¬W.Open' (p.2.shift.decl a) := by
  have lt' : a.index < p.2.table.decls.size := table_eq inside ▸ lt
  rintro ⟨x, paired⟩
  rcases twin_of_decl paired with ⟨r, member, b, ltb, -, same⟩ | ⟨-, same⟩ | ⟨k, -, index⟩
  · have ltb' : b.index < r.2.table.decls.size := by
      rw [show r.2.table = r.1.table from congrArg Fragment.table (W.same r member.mem)]
      exact ltb
    exact (apart_of_mem (outside_of_slot member) inside).2.ne monotone_decls
      ⟨Inset.start_le_decl b, Inset.decl_lt_stop ltb'⟩ ⟨Inset.start_le_decl a, Inset.decl_lt_stop lt'⟩
      (congrArg DeclId.index same.symm)
  · refine (slot_inside inside).not_head'.1 ?_
    rw [← same]
    exact ⟨Inset.start_le_decl a, Inset.decl_lt_stop lt'⟩
  · have stop := Nat.lt_of_lt_of_le (Inset.decl_lt_stop lt') (W.stands p (slot_inside inside).mem).2.within.1
    exact absurd (index ▸ stop) (by simp [SymbolTable.extent])

theorem not_openScope {a : ScopeId} (inner : a ≠ .global) (lt : a.index < p.1.table.scopes.size) :
    ¬W.OpenScope (p.1.shift.scope a) := by
  rintro ⟨s', paired⟩
  have here := Inset.start_le_scope (p := p.1) inner
  rcases twin_of_scope paired.symm with ⟨r, member, b, innerb, ltb, same, -⟩ | ⟨same, -⟩ | ⟨k, index, -⟩ |
    ⟨within, -⟩
  · exact (apart_of_mem (outside_of_slot member) inside).1.ne monotone_scopes
      ⟨Inset.start_le_scope innerb, Inset.scope_lt_stop innerb ltb⟩ ⟨here, Inset.scope_lt_stop inner lt⟩
      (congrArg ScopeId.index same.symm)
  · have positive := start_pos p.1
    rw [same] at here
    exact absurd here (Nat.not_le_of_lt positive)
  · have stop := Nat.lt_of_lt_of_le (Inset.scope_lt_stop inner lt)
      (W.stands p (slot_inside inside).mem).1.within.2.1
    exact absurd (index ▸ stop) (by simp [SymbolTable.extent])
  · exact within

theorem not_openScope' {a : ScopeId} (inner : a ≠ .global) (lt : a.index < p.1.table.scopes.size) :
    ¬W.OpenScope' (p.2.shift.scope a) := by
  have lt' : a.index < p.2.table.scopes.size := table_eq inside ▸ lt
  rintro ⟨s, paired⟩
  have here := Inset.start_le_scope (p := p.2) inner
  rcases twin_of_scope paired with ⟨r, member, b, innerb, ltb, -, same⟩ | ⟨-, same⟩ | ⟨k, -, index⟩ |
    ⟨within, -⟩
  · have ltb' : b.index < r.2.table.scopes.size := by
      rw [show r.2.table = r.1.table from congrArg Fragment.table (W.same r member.mem)]
      exact ltb
    exact (apart_of_mem (outside_of_slot member) inside).2.ne monotone_scopes
      ⟨Inset.start_le_scope innerb, Inset.scope_lt_stop innerb ltb'⟩ ⟨here, Inset.scope_lt_stop inner lt'⟩
      (congrArg ScopeId.index same.symm)
  · have positive := start_pos p.2
    rw [same] at here
    exact absurd here (Nat.not_le_of_lt positive)
  · have stop := Nat.lt_of_lt_of_le (Inset.scope_lt_stop inner lt')
      (W.stands p (slot_inside inside).mem).2.within.2.1
    exact absurd (index ▸ stop) (by simp [SymbolTable.extent])
  · exact within

omit inside

theorem not_open_extension {f : Frame} (member : f ∈ W.extensions) : ¬W.Open f.id := by
  rintro ⟨x', paired⟩
  rcases twin_of_decl paired.symm with ⟨r, slot, b, ltb, same, -⟩ | ⟨same, -⟩ | ⟨k, index, -⟩
  · exact slot.decl_ne ltb (List.mem_cons_of_mem _ member) same
  · exact (keep_iff.mp W.keep_cls) f member same
  · have lt := (W.frames f (List.mem_cons_of_mem _ member)).1.declared
    omega

theorem not_openScope_frame {f : Frame} (member : f ∈ W.cls :: W.extensions) : ¬W.OpenScope f.scope := by
  have stands := (W.frames f member).1
  rintro ⟨s', paired⟩
  rcases twin_of_scope paired.symm with ⟨r, slot, b, innerb, ltb, same, -⟩ | ⟨same, -⟩ | ⟨k, index, -⟩ |
    ⟨within, -⟩
  · refine (slot.not_head member).2 ?_
    rw [same]
    exact ⟨Inset.start_le_scope innerb, Inset.scope_lt_stop innerb ltb⟩
  · exact stands.inner same
  · have lt := stands.opened
    omega
  · exact within

theorem not_openScope_frame' : ¬W.OpenScope' W.cls'.scope := by
  rintro ⟨s, paired⟩
  rcases twin_of_scope paired with twin | ⟨-, same⟩ | ⟨k, -, index⟩ | ⟨within, -⟩
  · exact twin.ne rfl
  · exact W.frame'.inner same
  · have lt := W.frame'.opened
    omega
  · exact within

/-- Nobody holds the class before it has been visited. -/
theorem not_held : W.cls.id ∉ Set.preimage W.before.left.held (Set.range W.before.right.held) ∧
    W.cls'.id ∉ Set.preimage W.before.right.held (Set.range W.before.left.held) := by
  constructor
  · rintro ⟨x', paired⟩
    rcases twin_of_held paired.symm with ⟨r, slot, b, ltb, same, -⟩ | ⟨held, -⟩ | ⟨k, index, -⟩
    · exact slot.decl_ne ltb (List.mem_cons_self ..) same
    · exact held
    · have lt := W.cls_lt
      omega
  · rintro ⟨x, paired⟩
    rcases twin_of_held paired with ⟨r, slot, b, ltb, -, same⟩ | ⟨held, -⟩ | ⟨k, -, index⟩
    · refine slot.not_head'.1 ?_
      rw [same]
      refine ⟨Inset.start_le_decl b, Inset.decl_lt_stop ?_⟩
      rw [show r.2.table = r.1.table from congrArg Fragment.table (W.same r slot.mem)]
      exact ltb
    · exact held
    · have lt := W.cls_lt'
      omega

/-! ## Until the class is visited -/

section Before

variable (h : W.before.Joins n u u')

include h

theorem owns_cls : u.scopeOf? (.decl W.cls.id) = some W.cls.scope ∧
    u'.scopeOf? (.decl W.cls'.id) = some W.cls'.scope :=
  ⟨(h.confined.scopeOf? _).trans (W.frames _ (List.mem_cons_self ..)).1.owns,
    (h.confined'.scopeOf? _).trans W.frame'.owns⟩

omit h in
theorem paired_cls : W.before.left.decl W.cls.id = W.before.right.decl W.cls'.id :=
  (W.exact_pairing False False).decl_iff.mpr (.extra (.inl ⟨rfl, rfl⟩))

/-- The class is one that can take in its extensions. -/
theorem isPrimaryClass_cls : (u.decl W.cls.id).isPrimaryClass = true ∧
    (u'.decl W.cls'.id).isPrimaryClass = true := by
  have proper : (u.decl W.cls.id).isExtension = false := by
    by_contra extension
    refine W.not_held.1 ⟨W.cls'.id, ?_⟩
    exact (h.extension trivial paired_cls (by simpa using extension)).symm
  have isClass : (u.decl W.cls.id).members?.isSome = true := by
    rw [h.confined.classes]
    show (W.t.decl W.cls.id).members?.isSome = true
    rw [(W.frames _ (List.mem_cons_self ..)).1.decl]
    rfl
  have primary : (u.decl W.cls.id).isPrimaryClass = true := by
    rw [Decl.isPrimaryClass_eq, isClass, proper]
    rfl
  exact ⟨primary, (h.decl paired_cls).isPrimaryClass.trans primary⟩

theorem decl_extension {f : Frame} (member : f ∈ W.extensions) : u.decl f.id = W.t.decl f.id :=
  h.confined.decl _ (W.not_open_extension member)

theorem scope_frame {f : Frame} (member : f ∈ W.cls :: W.extensions) : u.scope f.scope = W.t.scope f.scope :=
  h.confined.scope _ (W.not_openScope_frame member)

theorem isExtension_extension {f : Frame} (member : f ∈ W.extensions) : (u.decl f.id).isExtension = true := by
  rw [decl_extension h member, (W.frames f (List.mem_cons_of_mem _ member)).1.decl, Decl.isExtension,
    W.extending f member]

end Before

end Twins

/-! ## A class takes in its extensions

When the first pass comes to the class, it takes in its extensions, which share its name with nothing else.
-/

open Resolution SymbolTable

namespace Twins

variable {W : Twins} {n m : Nat} {u u' w : SymbolTable} {x x' : DeclId} {s s' : ScopeId}

/-! ## Labels for wider pairings -/

theorem within_pairing {within within' holding holding' : Prop} (le : within → within')
    (le' : holding → holding') : (W.pairing within holding).Within (W.pairing within' holding') := by
  have slots {p : Inset × Inset} (member : W.Slot within p) : W.Slot within' p :=
    member.imp_right fun ⟨inside, there⟩ => ⟨le inside, there⟩
  have wider {d : Extent → Nat} {extra extra' : Nat → Nat → Prop} {i j : Nat}
      (h : Partners (W.Slot within) d extra i j) (others : extra i j → extra' i j) :
      Partners (W.Slot within') d extra' i j := by
    cases h with
    | slot member lt => exact .slot (slots member) lt
    | extra meant => exact .extra (others meant)
  constructor
  · exact fun i j h => wider h id
  · exact fun i j h => wider h (Or.imp_left (And.imp_left le'))
  · exact fun i j h => wider h id
  · exact fun i j h => wider h (Or.imp_right (Or.imp_right (And.imp_left le)))

section Through

variable {within within' holding holding' : Prop} {M N : Matching} (fits : W.Fits within holding M)
  (fits' : W.Fits within' holding' N) (le : within → within') (le' : holding → holding')

include fits fits' le le'

theorem Fits.left_through : N.left = M.left.through (W.pairing within' holding').relabel := by
  rw [fits.left, fits'.left]
  exact ((within_pairing le le').left (W.exact_pairing within' holding')).symm

omit le le' in
theorem Fits.right_through : N.right = M.right.through (W.pairing within' holding').relabel := by
  rw [fits.right, fits'.right]
  exact (Pairing.right_through _).symm

theorem Fits.matches_through {d d' : Decl} (h : d.Matches M.left M.right d') :
    d.Matches N.left N.right d' := by
  rw [fits.left_through fits' le le', fits.right_through fits']
  exact h.through _

theorem Fits.allMatch_through {body body' : List Stmt} (h : Stmt.AllMatch M.left M.right body body') :
    Stmt.AllMatch N.left N.right body body' := by
  rw [fits.left_through fits' le le', fits.right_through fits']
  exact h.through _

theorem Fits.aligned_through {a a' : Scope} (h : M.Aligned a a') : N.Aligned a a' where
  parent := by
    rw [fits.left_through fits' le le', fits.right_through fits']
    show a.parent.map ((W.pairing within' holding').relabel.scope ∘ M.left.scope) =
      a'.parent.map ((W.pairing within' holding').relabel.scope ∘ M.right.scope)
    rw [← Option.map_map, ← Option.map_map, h.parent]
  names name := by
    have shown : N.shown = List.map (W.pairing within' holding').relabel.decl ∘ M.shown := by
      funext set
      unfold Matching.shown
      rw [fits'.keep, ← fits.keep, fits.left_through fits' le le']
      simp [Labels.through]
    rw [shown, fits.right_through fits', ← Option.map_map, h.names]
    simp [Labels.through, Option.map_map, Function.comp_def]

theorem Fits.active_through {l l' : List ScopeId} (h : l.map M.left.scope = l'.map M.right.scope) :
    l.map N.left.scope = l'.map N.right.scope := by
  rw [fits.left_through fits' le le', fits.right_through fits']
  show l.map ((W.pairing within' holding').relabel.scope ∘ M.left.scope) =
    l'.map ((W.pairing within' holding').relabel.scope ∘ M.right.scope)
  rw [← List.map_map, ← List.map_map, h]

end Through

/-! ## The class takes in its extensions -/

section Before

variable (h : W.before.Joins n u u')

include h

theorem scopesOf_extensions : u.scopesOf (W.extensions.map Frame.id) = W.extensions.map Frame.scope := by
  unfold scopesOf
  rw [List.filterMap_map]
  refine List.filterMap_eq_map_iff_forall_eq_some.mpr fun f member => ?_
  exact (h.confined.scopeOf? _).trans (W.frames f (List.mem_cons_of_mem _ member)).1.owns

theorem title_cls : (u.decl W.cls.id).name = W.cls.name ∧ (u.decl W.cls.id).scope = .global ∧
    (u'.decl W.cls'.id).name = W.cls.name ∧ (u'.decl W.cls'.id).scope = .global := by
  obtain ⟨name, scope⟩ := h.confined.title W.cls.id W.cls_lt
  obtain ⟨name', scope'⟩ := h.confined'.title W.cls'.id W.cls_lt'
  have frame : W.before.base.decl W.cls.id = _ := (W.frames _ (List.mem_cons_self ..)).1.decl
  have frame' : W.before.base'.decl W.cls'.id = _ := W.frame'.decl
  rw [name, scope, name', scope', frame, frame']
  exact ⟨rfl, rfl, W.name', rfl⟩

/-- The class can take in the extensions that share its name. -/
theorem extensible : u.Extensible W.cls.id W.cls.scope (W.extensions.map Frame.id) where
  ordered := h.confined.ordered
  primary := (isPrimaryClass_cls h).1
  extension e member := by
    obtain ⟨f, inside, rfl⟩ := List.mem_map.mp member
    exact isExtension_extension h inside
  owner e member := by
    obtain ⟨f, inside, rfl⟩ := List.mem_map.mp member
    rw [h.confined.scopeOf?]
    exact Option.isSome_iff_exists.mpr ⟨_, (W.frames f (List.mem_cons_of_mem _ inside)).1.owns⟩
  distinct := by
    rw [scopesOf_extensions h, ← List.map_cons (f := Frame.scope)]
    refine List.pairwise_map.mpr (W.lone.imp fun apart same => ?_)
    exact apart.ne monotone_scopes ⟨Nat.le_refl _, Nat.lt_succ_self _⟩ ⟨Nat.le_refl _, Nat.lt_succ_self _⟩
      (congrArg ScopeId.index same)
  inside s member := by
    rw [scopesOf_extensions h, ← List.map_cons (f := Frame.scope)] at member
    obtain ⟨f, inside, rfl⟩ := List.mem_map.mp member
    obtain ⟨k, size, -⟩ := h.scopes
    have lt : f.scope.index < W.before.base.scopes.size := (W.frames f inside).1.opened
    omega

/-- The extensions that share the name of the class are those there have been from the start. -/
theorem exists_set : ∃ set, (u.scope .global).find? W.cls.name = some set ∧
    u.extensionsAmong set = W.extensions.map Frame.id ∧ set.length = W.extensions.length + 1 := by
  obtain ⟨set, found, -, kept, dropped⟩ := W.sets
  refine ⟨set, h.own.trans found, ?_, ?_⟩
  · rw [← dropped]
    refine List.filter_congr fun d member => ?_
    show (u.decl d).isExtension = !W.keep d
    cases keeps : W.keep d with
    | true =>
      have here : d ∈ set.filter W.keep := List.mem_filter.mpr ⟨member, keeps⟩
      obtain rfl := List.mem_singleton.mp ((show set.filter W.keep = [W.cls.id] from kept) ▸ here)
      exact not_isExtension_of_isPrimaryClass (isPrimaryClass_cls h).1
    | false =>
      obtain ⟨f, inside, rfl⟩ : ∃ f ∈ W.extensions, f.id = d := by
        by_contra none
        have all : W.keep d = true := keep_iff.mpr fun f inside same => none ⟨f, inside, same⟩
        rw [all] at keeps
        cases keeps
      exact isExtension_extension h inside
  · have sum := List.length_eq_length_filter_add (l := set) W.keep
    rw [show set.filter W.keep = [W.cls.id] from kept,
      show set.filter (fun d => !W.keep d) = W.extensions.map Frame.id from dropped] at sum
    rw [sum, List.length_map, List.length_singleton, Nat.add_comm]

/-- The class takes in its extensions, if there are any. -/
theorem exists_takesIn : ∃ w, (if u.isOverloaded .global W.cls.name
      then Runs (absorbExtensions .global W.cls.id) u (.ok ()) w else w = u) ∧
    w.Ordered ∧ w.Layered ∧ TakesIn W.cls.id W.cls.scope (W.extensions.map Frame.id) u w := by
  obtain ⟨set, found, extensions, length⟩ := exists_set h
  obtain ⟨name, scope, -⟩ := title_cls h
  have overloaded : u.isOverloaded .global W.cls.name = decide (1 < set.length) := by
    unfold isOverloaded
    rw [found]
    rfl
  rw [overloaded]
  by_cases more : 1 < set.length
  · obtain ⟨w, run, ordered, taken⟩ := exists_runs_absorbAll set (extensions ▸ extensible h)
    have absorbs : Runs (absorbExtensions .global W.cls.id) u (.ok ()) w := by
      unfold absorbExtensions
      rw [runs_bind_look, name, found]
      exact runs_bind.mpr (.inr ⟨_, u, run_scopeOf_of_eq_some (owns_cls h).1, run⟩)
    refine ⟨w, ?_, ordered, ?_, extensions ▸ taken⟩
    · rw [if_pos (decide_eq_true more)]
      exact absorbs
    · exact (Signature.stays_absorbExtensions h.confined.layered
        (not_isExtension_of_isPrimaryClass (isPrimaryClass_cls h).1) (scope.symm ▸ absorbs)).layered
  · have none : W.extensions = [] := List.length_eq_zero_iff.mp (by omega)
    refine ⟨u, ?_, h.confined.ordered, h.confined.layered, ?_⟩
    · rw [if_neg (by simpa using more)]
    · rw [none]
      exact .refl ..

end Before

end Twins

/-! ## Inside the class

Once the class has taken in its extensions, what is inside it matches what is inside the class that has had
their members from the start, while both are without members.
-/

open Resolution SymbolTable
open Signature (withoutMembers)

namespace Twins

variable {W : Twins} {n m : Nat} {u u' w : SymbolTable} {x x' : DeclId} {s s' : ScopeId}

/-! ## Names inside -/

theorem joined_find? (ps qs : List Inset) (name : String) :
    Inset.findAll (ps ++ qs) name = joined (Inset.findAll ps name) (Inset.findAll qs name) := by
  induction ps with
  | nil => exact (Option.merge_none_left ..).symm
  | cons p ps ih =>
    show joined (p.find? name) (Inset.findAll (ps ++ qs) name) = _
    rw [ih]
    exact (joined_assoc ..).symm

/-- A name has in some scopes together what it has in the fragments between their braces. -/
theorem together_frames (t : SymbolTable) (name : String) : ∀ fs : List Frame,
    (∀ f ∈ fs, (t.scope f.scope).find? name = Inset.findAll f.parts name) →
    t.together (fs.map Frame.scope) name = Inset.findAll (fs.flatMap Frame.parts) name
  | [], _ => rfl
  | f :: fs, same => by
    rw [List.map_cons, together_cons, List.flatMap_cons, joined_find?, same f (List.mem_cons_self ..),
      together_frames t name fs fun g member => same g (List.mem_cons_of_mem f member)]
    rfl

/-- Of fragments that declare different names at most one has a given name. -/
theorem findAll_of_unlike {name : String} : ∀ {ps : List Inset},
    (ps.Pairwise fun p q => p.fragment.find? name = none ∨ q.fragment.find? name = none) →
    ∀ {p : Inset}, p ∈ ps → ∀ {set : Overloads}, p.find? name = some set → Inset.findAll ps name = some set
  | q :: ps, unlike, p, member, set, found => by
    obtain ⟨first, rest⟩ := List.pairwise_cons.mp unlike
    have declares {p : Inset} : p.find? name = none ↔ p.fragment.find? name = none := Option.map_eq_none_iff
    show joined (q.find? name) (Inset.findAll ps name) = some set
    rcases List.mem_cons.mp member with rfl | member
    · have none : Inset.findAll ps name = none := by
        have all : ∀ r ∈ ps, r.find? name = none := fun r inside => declares.mpr
          ((first r inside).resolve_left fun absent => by simp [declares.mpr absent] at found)
        clear unlike rest member first
        induction ps with
        | nil => rfl
        | cons r ps ih =>
          show joined (r.find? name) (Inset.findAll ps name) = none
          rw [all r (List.mem_cons_self ..), ih fun q inside => all q (List.mem_cons_of_mem r inside)]
          rfl
      rw [none, found]
      rfl
    · have absent := declares.mpr
        ((first p member).resolve_right fun absent => by simp [declares.mpr absent] at found)
      rw [absent, findAll_of_unlike rest member found]
      rfl

/-- Where a name is declared in some of the fragments, it is in one. -/
theorem exists_of_findAll {name : String} {set : Overloads} : ∀ {ps : List Inset},
    (ps.Pairwise fun p q => p.fragment.find? name = none ∨ q.fragment.find? name = none) →
    Inset.findAll ps name = some set → ∃ p ∈ ps, p.find? name = some set
  | [], _, found => by cases found
  | p :: ps, unlike, found => by
    have whole := found
    cases own : p.find? name with
    | some set' =>
      rw [findAll_of_unlike unlike (List.mem_cons_self ..) own] at whole
      exact ⟨p, List.mem_cons_self .., whole ▸ own⟩
    | none =>
      change joined (p.find? name) (Inset.findAll ps name) = some set at found
      rw [own, none_joined] at found
      obtain ⟨q, member, here⟩ := exists_of_findAll (List.pairwise_cons.mp unlike).2 found
      exact ⟨q, List.mem_cons_of_mem p member, here⟩

theorem unlike_fst (W : Twins) (name : String) : (W.inside.map Prod.fst).Pairwise fun p q =>
    p.fragment.find? name = none ∨ q.fragment.find? name = none :=
  List.pairwise_map.mpr (W.unlike.imp fun differ => differ name)

theorem unlike_snd (W : Twins) (name : String) : (W.inside.map Prod.snd).Pairwise fun p q =>
    p.fragment.find? name = none ∨ q.fragment.find? name = none := by
  refine List.pairwise_map.mpr (W.unlike.imp_of_mem fun {p q} member member' differ => ?_)
  rw [W.same p (List.mem_append_right _ member), W.same q (List.mem_append_right _ member')]
  exact differ name

/-- No name is overloaded inside. -/
theorem length_le_one {name : String} {set : Overloads} :
    (Inset.findAll (W.inside.map Prod.fst) name = some set → set.length ≤ 1) ∧
      (Inset.findAll (W.inside.map Prod.snd) name = some set → set.length ≤ 1) := by
  have one {p : Inset} {f : Fragment} (same : p.fragment = f)
      (single : ∀ set, f.find? name = some set → set.length ≤ 1) (found : p.find? name = some set) :
      set.length ≤ 1 := by
    obtain ⟨own, here, rfl⟩ := Option.map_eq_some_iff.mp found
    rw [List.length_map]
    exact single own (same ▸ here)
  constructor
  · intro found
    obtain ⟨p, member, here⟩ := exists_of_findAll (W.unlike_fst name) found
    obtain ⟨r, inside, rfl⟩ := List.mem_map.mp member
    exact one rfl (W.single r inside name) here
  · intro found
    obtain ⟨p, member, here⟩ := exists_of_findAll (W.unlike_snd name) found
    obtain ⟨r, inside, rfl⟩ := List.mem_map.mp member
    exact one (W.same r (List.mem_append_right _ inside)) (W.single r inside name) here

/-- What the fragments inside declare is kept. -/
theorem keep_of_findAll {name : String} {set : Overloads}
    (found : Inset.findAll (W.inside.map Prod.fst) name = some set) : ∀ d ∈ set, W.keep d = true := by
  obtain ⟨p, member, here⟩ := exists_of_findAll (W.unlike_fst name) found
  obtain ⟨r, inside, rfl⟩ := List.mem_map.mp member
  obtain ⟨own, there, rfl⟩ := Option.map_eq_some_iff.mp here
  intro d declared
  obtain ⟨a, known, rfl⟩ := List.mem_map.mp declared
  exact (slot_inside inside).keep (lt_of_find? _ there a known)

/-! ## The tables while the class has no members -/

section Before

variable (h : W.before.Joins n u u') (taken : TakesIn W.cls.id W.cls.scope (W.extensions.map Frame.id) u w)

include h taken

omit h in
theorem decl_within (ne : ∀ f ∈ W.cls :: W.extensions, f.id ≠ x) :
    (withoutMembers w W.cls.id).decl x = u.decl x := by
  rw [decl_modifyDecl_of_ne (ne _ (List.mem_cons_self ..)).symm]
  refine taken.decl x (ne _ (List.mem_cons_self ..)).symm fun member => ?_
  obtain ⟨f, inside, same⟩ := List.mem_map.mp member
  exact ne f (List.mem_cons_of_mem _ inside) same

omit h in
/-- Whatever is in the table is as it was but for members. -/
theorem exists_mapMembers (x : DeclId) : ∃ f, (withoutMembers w W.cls.id).decl x = (u.decl x).mapMembers f := by
  have absorbed : ∃ f, w.decl x = (u.decl x).mapMembers f := by
    by_cases cls : x = W.cls.id
    · exact ⟨_, cls ▸ taken.members⟩
    by_cases extension : x ∈ W.extensions.map Frame.id
    · exact ⟨_, taken.emptied x extension⟩
    · exact ⟨_, (taken.decl x cls extension).trans (Decl.mapMembers_id _).symm⟩
  obtain ⟨f, same⟩ := absorbed
  rw [decl_modifyDecl]
  split
  · rename_i here
    rw [← here.1, same, Decl.mapMembers_mapMembers]
    exact ⟨_, rfl⟩
  · exact ⟨f, same⟩

theorem scope_within (ne : ∀ f ∈ W.cls :: W.extensions, f.scope ≠ s) :
    (withoutMembers w W.cls.id).scope s = u.scope s := by
  refine taken.scope s (ne _ (List.mem_cons_self ..)).symm fun member => ?_
  rw [scopesOf_extensions h] at member
  obtain ⟨f, inside, same⟩ := List.mem_map.mp member
  exact ne f (List.mem_cons_of_mem _ inside) same

/-- The class has all the names of the fragments inside. -/
theorem find?_within (name : String) :
    ((withoutMembers w W.cls.id).scope W.cls.scope).find? name = Inset.findAll (W.inside.map Prod.fst) name := by
  refine (taken.names name).trans ?_
  rw [scopesOf_extensions h, ← List.map_cons (f := Frame.scope), ← W.parts]
  refine together_frames u name _ fun f member => ?_
  rw [scope_frame h member]
  exact (W.frames f member).1.names name

theorem scope_extension {f : Frame} (member : f ∈ W.extensions) :
    (withoutMembers w W.cls.id).scope f.scope = { W.t.scope f.scope with parent := some W.cls.scope } := by
  have inside : f.scope ∈ u.scopesOf (W.extensions.map Frame.id) := by
    rw [scopesOf_extensions h]
    exact List.mem_map_of_mem member
  rw [← scope_frame h (List.mem_cons_of_mem _ member)]
  exact taken.inside _ inside

/-- What an extension declares, the class does as well. -/
theorem find?_extension {f : Frame} (member : f ∈ W.extensions) {name : String} {set : Overloads}
    (found : ((withoutMembers w W.cls.id).scope f.scope).find? name = some set) :
    ((withoutMembers w W.cls.id).scope W.cls.scope).find? name = some set := by
  have frame := List.mem_cons_of_mem W.cls member
  rw [scope_extension h taken member] at found
  have own : Inset.findAll f.parts name = some set := ((W.frames f frame).1.names name).symm.trans found
  have parts : ∀ p ∈ f.parts, p ∈ W.inside.map Prod.fst := fun p inside =>
    W.parts ▸ List.mem_flatMap.mpr ⟨f, frame, inside⟩
  have unlike : f.parts.Pairwise fun p q => p.fragment.find? name = none ∨ q.fragment.find? name = none := by
    have whole := W.unlike_fst name
    rw [← W.parts] at whole
    obtain ⟨before, after, split⟩ := List.append_of_mem frame
    rw [split, List.flatMap_append, List.flatMap_cons] at whole
    exact (List.pairwise_append.mp (List.pairwise_append.mp whole).2.1).1
  obtain ⟨p, inside, here⟩ := exists_of_findAll unlike own
  rw [find?_within h taken]
  exact findAll_of_unlike (W.unlike_fst name) (parts p inside) here

end Before

end Twins

end Deferral
