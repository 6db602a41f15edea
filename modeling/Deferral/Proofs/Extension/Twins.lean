import Deferral.Proofs.Extension.Pairing

/-!
# What belongs together in units with the same fragments

The numbers that belong together in two units with the same fragments make their tables a matching: those of
the fragments, those of the class, and all that are made later.
-/

namespace Deferral

/-- What belongs together in a wider sense does so in a narrower one, if nothing new is meant. -/
theorem Partners.imp {slots : Inset × Inset → Prop} {d : Extent → Nat} {extra extra' : Nat → Nat → Prop}
    {x y : Nat} (h : Partners slots d extra x y) (other : extra x y → extra' x y) :
    Partners slots d extra' x y := by
  cases h with
  | slot member lt => exact .slot member lt
  | extra meant => exact .extra (other meant)

namespace Twins

variable {W : Twins} {within holding : Prop} {x x' : DeclId} {s s' : ScopeId}

/-! ## The cases -/

theorem Slot.covers {p : Inset × Inset} (h : W.Slot within p) : (W.pairing within holding).Covers p where
  same := W.same p h.mem
  decl n lt := .slot h (Nat.add_lt_add_left lt _)
  held n lt := .slot h (Nat.add_lt_add_left lt _)
  block n lt := .slot h (Nat.add_lt_add_left lt _)
  scope n lt := .slot h (Nat.add_lt_add_left (Nat.lt_sub_of_add_lt lt) _)
  outer := by
    rcases h with outside | ⟨inside, member⟩
    · obtain ⟨outer, outer'⟩ := W.outer p outside
      rw [outer, outer']
      exact .extra (.inl ⟨rfl, rfl⟩)
    · obtain ⟨⟨f, frame, inner⟩, inner'⟩ := W.inner p member
      rw [inner, inner']
      exact .extra (.inr (.inr ⟨inside, ⟨f, frame, rfl⟩, rfl⟩))

/-- A declaration of a fragment in both places. -/
def Twin (W : Twins) (within : Prop) (x x' : DeclId) : Prop :=
  ∃ p, W.Slot within p ∧ ∃ a : DeclId, a.index < p.1.table.decls.size ∧ x = p.1.shift.decl a ∧
    x' = p.2.shift.decl a

/-- A scope of a fragment in both places. -/
def TwinScope (W : Twins) (within : Prop) (s s' : ScopeId) : Prop :=
  ∃ p, W.Slot within p ∧ ∃ a : ScopeId, a ≠ .global ∧ a.index < p.1.table.scopes.size ∧
    s = p.1.shift.scope a ∧ s' = p.2.shift.scope a

theorem twin_of_paired {extra : Nat → Nat → Prop}
    (h : Partners (W.Slot within) Extent.decls extra x.index x'.index) :
    W.Twin within x x' ∨ extra x.index x'.index := by
  obtain ⟨i⟩ := x
  obtain ⟨i'⟩ := x'
  cases h with
  | @slot p n member lt => exact .inl ⟨p, member, ⟨n⟩, Nat.lt_of_add_lt_add_left lt, rfl, rfl⟩
  | extra meant => exact .inr meant

theorem twin_of_decl (paired : (W.pairing within holding).left.decl x = Pairing.right.decl x') :
    W.Twin within x x' ∨ (x = W.cls.id ∧ x' = W.cls'.id) ∨
      Late W.t.decls.size W.t'.decls.size x.index x'.index := by
  refine (twin_of_paired ((W.exact_pairing within holding).decl_iff.mp paired)).imp_right fun meant => ?_
  exact meant.imp_left fun ⟨same, same'⟩ => ⟨congrArg DeclId.mk same, congrArg DeclId.mk same'⟩

theorem twin_of_held (paired : (W.pairing within holding).left.held x = Pairing.right.held x') :
    W.Twin within x x' ∨ (holding ∧ x = W.cls.id ∧ x' = W.cls'.id) ∨
      Late W.t.decls.size W.t'.decls.size x.index x'.index := by
  refine (twin_of_paired ((W.exact_pairing within holding).held_iff.mp paired)).imp_right fun meant => ?_
  exact meant.imp_left fun ⟨held, same, same'⟩ =>
    ⟨held, congrArg DeclId.mk same, congrArg DeclId.mk same'⟩

theorem twin_of_scope (paired : (W.pairing within holding).left.scope s = Pairing.right.scope s') :
    W.TwinScope within s s' ∨ (s = .global ∧ s' = .global) ∨
      Late W.t.scopes.size W.t'.scopes.size s.index s'.index ∨
      within ∧ (∃ f ∈ W.cls :: W.extensions, s = f.scope) ∧ s' = W.cls'.scope := by
  have h := (W.exact_pairing within holding).scope_iff.mp paired
  obtain ⟨i⟩ := s
  obtain ⟨i'⟩ := s'
  cases h with
  | @slot p n member lt =>
    have inner : ScopeId.mk (n + 1) ≠ .global := fun same => Nat.succ_ne_zero n (congrArg ScopeId.index same)
    refine .inl ⟨p, member, ⟨n + 1⟩, inner, ?_, ?_, ?_⟩
    · have := Nat.lt_of_add_lt_add_left lt
      show n + 1 < _
      omega
    · exact (if_neg inner).symm
    · exact (if_neg inner).symm
  | extra meant =>
    refine .inr ?_
    rcases meant with ⟨rfl, rfl⟩ | late | ⟨inside, ⟨f, member, rfl⟩, rfl⟩
    · exact .inl ⟨rfl, rfl⟩
    · exact .inr (.inl late)
    · exact .inr (.inr ⟨inside, ⟨f, member, rfl⟩, rfl⟩)

/-- Only the scope of the class has several partners. -/
theorem plain_of_paired (paired : (W.pairing within holding).left.scope s = Pairing.right.scope s')
    (ne : s' ≠ W.cls'.scope) (other : ScopeId)
    (same : (W.pairing within holding).left.scope other = (W.pairing within holding).left.scope s) :
    other = s := by
  have exact' := W.exact_pairing within holding
  have first := exact'.scope_iff.mp (same.trans paired)
  have second := exact'.scope_iff.mp paired
  have unmerged {i : Nat} (h : (W.pairing within holding).scope i s'.index) :
      Partners (W.Slot within) Extent.scopes
        (fun x y => x = 0 ∧ y = 0 ∨ Late W.t.scopes.size W.t'.scopes.size x y) i s'.index :=
    h.imp fun meant => meant.imp_right fun meant => meant.resolve_right fun merged =>
      ne (congrArg ScopeId.mk merged.2.2)
  refine congrArg ScopeId.mk (Partners.single monotone_scopes (fun p n h lt => ?_)
    (fun p r h h' ne => (h.apart h' ne).2) (fun p x y h other => ?_) ?_ _ _ _ (unmerged first)
      (unmerged second))
  · rw [h.stop_eq]
    exact Nat.add_lt_add_left (Nat.lt_of_add_lt_add_left lt) _
  · rcases other with ⟨-, rfl⟩ | ⟨k, -, rfl⟩
    · have positive := start_pos p.2
      omega
    · have le := (W.stands p h.mem).2.within.2.1
      exact fun inside => absurd (Nat.lt_of_lt_of_le inside.2 le) (by simp [SymbolTable.extent])
  · have lt : 0 < W.t'.scopes.size := Nat.lt_of_le_of_lt (Nat.zero_le _) W.frame'.opened
    rintro x x' y (⟨rfl, rfl⟩ | ⟨k, rfl, rfl⟩) (⟨rfl, same⟩ | ⟨k', rfl, same⟩) <;> omega

/-- The scope of a fragment is not that of the class. -/
theorem TwinScope.ne (h : W.TwinScope within s s') : s' ≠ W.cls'.scope := by
  obtain ⟨p, member, a, inner, lt, -, rfl⟩ := h
  intro same
  refine member.not_head'.2 ?_
  rw [← same]
  refine ⟨Inset.start_le_scope inner, Inset.scope_lt_stop inner ?_⟩
  rw [show p.2.table = p.1.table from congrArg Fragment.table (W.same p member.mem)]
  exact lt

/-! ## The tables match -/

/-- Two tables that have grown in step. -/
structure Since (W : Twins) (u u' : SymbolTable) : Prop where
  decls : ∃ k, u.decls.size = W.t.decls.size + k ∧ u'.decls.size = W.t'.decls.size + k
  scopes : ∃ k, u.scopes.size = W.t.scopes.size + k ∧ u'.scopes.size = W.t'.scopes.size + k
  saved : u.saved = W.t.saved
  saved' : u'.saved = W.t'.saved

theorem Since.refl (W : Twins) : W.Since W.t W.t' := ⟨⟨0, rfl, rfl⟩, ⟨0, rfl, rfl⟩, rfl, rfl⟩

variable {u u' : SymbolTable} (since : W.Since u u')

include since

theorem Since.scopeOf? (owner : ScopeOwner) :
    u.scopeOf? owner = W.t.scopeOf? owner ∧ u'.scopeOf? owner = W.t'.scopeOf? owner := by
  unfold SymbolTable.scopeOf?
  rw [since.saved, since.saved']
  exact ⟨rfl, rfl⟩

omit since in
/-- What is made later owns no scope yet. -/
theorem scopeOf?_late {n n' : Nat} (size : n = W.t.decls.size) (size' : n' = W.t'.decls.size)
    (late : Late n n' x.index x'.index) :
    (W.t.scopeOf? (.decl x) = none ∧ W.t'.scopeOf? (.decl x') = none) ∧
      W.t.scopeOf? (.body x) = none ∧ W.t'.scopeOf? (.body x') = none := by
  obtain ⟨k, index, index'⟩ := late
  obtain ⟨rank, built⟩ := W.built
  obtain ⟨rank', built'⟩ := W.built'
  have absent {v : SymbolTable} {r : ScopeId → Nat} (ordered : v.Built r) {owner : ScopeOwner}
      (out : ¬v.Owned owner) : v.scopeOf? owner = none :=
    Option.eq_none_iff_forall_ne_some.mpr fun _ known => out (ordered.owned known).1
  refine ⟨⟨absent built ?_, absent built' ?_⟩, absent built ?_, absent built' ?_⟩ <;>
    simp only [SymbolTable.Owned] <;> omega

/-- What owns a scope owns the one that belongs to it. -/
theorem Since.saved_decl (merged : holding → within)
    (paired : (W.pairing within holding).left.held x = Pairing.right.held x') :
    (u.scopeOf? (.decl x)).map (W.pairing within holding).left.scope =
      (u'.scopeOf? (.decl x')).map Pairing.right.scope := by
  have exact' := W.exact_pairing within holding
  rw [(since.scopeOf? _).1, (since.scopeOf? _).2]
  rcases twin_of_held paired with ⟨p, member, a, lt, rfl, rfl⟩ | ⟨held, rfl, rfl⟩ | late
  · obtain ⟨stands, stands'⟩ := W.stands p member.mem
    exact member.covers.scopeOf_eq exact' stands stands' (.decl a) lt
  · rw [(W.frames _ (List.mem_cons_self ..)).1.owns, W.frame'.owns]
    refine congrArg some (exact'.scope_iff.mpr (.extra (.inr (.inr ?_))))
    exact ⟨merged held, ⟨W.cls, List.mem_cons_self .., rfl⟩, rfl⟩
  · obtain ⟨⟨none, none'⟩, -⟩ := scopeOf?_late rfl rfl late
    rw [none, none']
    rfl

theorem Since.saved_body (paired : (W.pairing within holding).left.held x = Pairing.right.held x') :
    (u.scopeOf? (.body x)).map (W.pairing within holding).left.scope =
      (u'.scopeOf? (.body x')).map Pairing.right.scope := by
  have exact' := W.exact_pairing within holding
  rw [(since.scopeOf? _).1, (since.scopeOf? _).2]
  rcases twin_of_held paired with ⟨p, member, a, lt, rfl, rfl⟩ | ⟨-, rfl, rfl⟩ | late
  · obtain ⟨stands, stands'⟩ := W.stands p member.mem
    exact member.covers.scopeOf_eq exact' stands stands' (.body a) lt
  · rw [(W.frames _ (List.mem_cons_self ..)).1.bodiless, W.frame'.bodiless]
    rfl
  · obtain ⟨-, none, none'⟩ := scopeOf?_late rfl rfl late
    rw [none, none']
    rfl

theorem Since.saved_block {b b' : Nat}
    (paired : (W.pairing within holding).left.block b = Pairing.right.block b') :
    (u.scopeOf? (.block b)).map (W.pairing within holding).left.scope =
      (u'.scopeOf? (.block b')).map Pairing.right.scope := by
  have exact' := W.exact_pairing within holding
  rw [(since.scopeOf? _).1, (since.scopeOf? _).2]
  cases exact'.block_iff.mp paired with
  | @slot p n member lt =>
    obtain ⟨stands, stands'⟩ := W.stands p member.mem
    exact member.covers.scopeOf_eq exact' stands stands' (.block n) (Nat.lt_of_add_lt_add_left lt)
  | extra none => exact none.elim

/-- Unless the class is among what holds, no owner's scope has several partners. -/
theorem Since.plain (apart : ¬holding)
    (paired : (W.pairing within holding).left.held x = Pairing.right.held x')
    (owns : u.scopeOf? (.decl x) = some s) (other : ScopeId)
    (same : (W.pairing within holding).left.scope other = (W.pairing within holding).left.scope s) :
    other = s := by
  have exact' := W.exact_pairing within holding
  rw [(since.scopeOf? _).1] at owns
  rcases twin_of_held paired with ⟨p, member, a, lt, rfl, rfl⟩ | ⟨held, -⟩ | late
  · obtain ⟨stands, stands'⟩ := W.stands p member.mem
    obtain ⟨rank, isRead⟩ := p.1.fragment.isRead
    have known : (p.1.table.scopeOf? (.decl a)).map p.1.shift.scope = some s :=
      (stands.saved (.decl a) lt).symm.trans owns
    obtain ⟨b, saved, rfl⟩ := Option.map_eq_some_iff.mp known
    obtain ⟨-, ltb, inner⟩ := isRead.built.owned saved
    refine plain_of_paired (member.covers.scope_eq exact' ltb) ?_ other same
    exact TwinScope.ne ⟨p, member, b, inner, ltb, rfl, rfl⟩
  · exact absurd held apart
  · obtain ⟨⟨none, -⟩, -⟩ := scopeOf?_late rfl rfl late
    rw [none] at owns
    cases owns

omit since

/-- The extensions of the class have nothing that belongs to them. -/
def keep (W : Twins) (d : DeclId) : Bool := W.extensions.all fun f => f.id ≠ d

/-- The numbers that belong together make the tables a matching. -/
noncomputable def matching (within holding signing : Prop) (merged : holding → within)
    (apart : signing → ¬holding) (since : W.Since u u') : Matching where
  left := (W.pairing within holding).left
  right := Pairing.right
  base := u
  base' := u'
  keep := W.keep
  name := W.cls.name
  signing
  distinct := (W.exact_pairing within holding).injective_left
  distinct' := Pairing.injective_right
  distinctScopes' := Pairing.injective_scope
  held paired := (W.exact_pairing within holding).decl_iff.mpr
    ((W.exact_pairing within holding).heldDecl _ _ ((W.exact_pairing within holding).held_iff.mp paired))
  global := (W.exact_pairing within holding).scope_iff.mpr (.extra (.inl ⟨rfl, rfl⟩))
  freshDecl k := by
    obtain ⟨j, size, size'⟩ := since.decls
    refine (W.exact_pairing within holding).decl_iff.mpr (.extra (.inr ⟨j + k, ?_, ?_⟩))
    · rw [size, Nat.add_assoc]
    · rw [size', Nat.add_assoc]
  freshScope k := by
    obtain ⟨j, size, size'⟩ := since.scopes
    refine (W.exact_pairing within holding).scope_iff.mpr (.extra (.inr (.inl ⟨j + k, ?_, ?_⟩)))
    · rw [size, Nat.add_assoc]
    · rw [size', Nat.add_assoc]
  plainFresh k s same := by
    obtain ⟨j, size, size'⟩ := since.scopes
    have paired : (W.pairing within holding).left.scope ⟨u.scopes.size + k⟩ =
        Pairing.right.scope ⟨W.t'.scopes.size + (j + k)⟩ :=
      (W.exact_pairing within holding).scope_iff.mpr
        (.extra (.inr (.inl ⟨j + k, by rw [size, Nat.add_assoc], rfl⟩)))
    refine plain_of_paired paired (fun here => ?_) s same
    have lt := W.frame'.opened
    rw [← here] at lt
    simp at lt
  kept k := by
    obtain ⟨j, size, -⟩ := since.decls
    refine List.all_eq_true.mpr fun f member => decide_eq_true fun same => ?_
    have lt := (W.frames f (List.mem_cons_of_mem _ member)).1.declared
    rw [same] at lt
    simp only [size] at lt
    omega
  saved := since.saved_decl merged
  savedBody := since.saved_body
  savedBlock := since.saved_block
  plainSaved signing _ _ _ paired owns := since.plain (apart signing) paired owns

end Twins

/-! ## Units with the same fragments match

When two units with the same fragments have been read, their tables match outside the class that the one has
extended.
-/

open SymbolTable (joined)

theorem Matching.map_joined (M : Matching) (old new : Option Overloads) :
    (joined old new).map M.shown = Option.merge (· ++ ·) (old.map M.shown) (new.map M.shown) := by
  have append (set set' : Overloads) : M.shown (set ++ set') = M.shown set ++ M.shown set' := by
    simp [Matching.shown]
  cases old <;> cases new <;> simp [joined, append]

namespace Twins

variable {W : Twins} {within holding signing : Prop} {x x' : DeclId} {s s' : ScopeId} {t t' u u' v v' : SymbolTable}

/-! ## What is kept -/

theorem keep_iff : W.keep x = true ↔ ∀ f ∈ W.extensions, f.id ≠ x := by
  simp [keep]

theorem keep_cls : W.keep W.cls.id = true := by
  refine keep_iff.mpr fun f member same => ?_
  have apart := (List.pairwise_cons.mp W.lone).1 f member
  exact apart.symm.ne monotone_decls ⟨Nat.le_refl _, Nat.lt_succ_self _⟩
    ⟨Nat.le_refl _, Nat.lt_succ_self _⟩ (congrArg DeclId.index same)

/-- The numbers of a fragment are those of no class or extension. -/
theorem Slot.decl_ne {p : Inset × Inset} (h : W.Slot within p) {a : DeclId}
    (lt : a.index < p.1.table.decls.size) {f : Frame} (member : f ∈ W.cls :: W.extensions) :
    f.id ≠ p.1.shift.decl a := by
  intro same
  refine (h.not_head member).1 ?_
  rw [same]
  exact ⟨Inset.start_le_decl a, Inset.decl_lt_stop lt⟩

theorem Slot.keep {p : Inset × Inset} (h : W.Slot within p) {a : DeclId}
    (lt : a.index < p.1.table.decls.size) : W.keep (p.1.shift.decl a) = true :=
  keep_iff.mpr fun _ member => h.decl_ne lt (List.mem_cons_of_mem _ member)

/-- What a fragment declares is in it. -/
theorem lt_of_find? (f : Fragment) {a : ScopeId} {name : String} {set : Overloads}
    (found : (f.table.scope a).find? name = some set) : ∀ d ∈ set, d.index < f.table.decls.size := by
  obtain ⟨rank, isRead⟩ := f.isRead
  exact fun d member => (isRead.built.bound (Names.binds_of_find? found member)).1

/-- A matching whose pairs are those of the fragments. -/
structure Fits (W : Twins) (within holding : Prop) (M : Matching) : Prop where
  left : M.left = (W.pairing within holding).left
  right : M.right = Pairing.right
  keep : M.keep = W.keep
  name : M.name = W.cls.name

theorem fits_matching (merged : holding → within) (apart : signing → ¬holding) (since : W.Since u u') :
    W.Fits within holding (W.matching within holding signing merged apart since) := ⟨rfl, rfl, rfl, rfl⟩

namespace Fits

variable {M : Matching} (fits : W.Fits within holding M) {p : Inset × Inset} (member : W.Slot within p)

include fits member

/-! ## Names of fragments -/

theorem shown_map {set : Overloads} (lt : ∀ d ∈ set, d.index < p.1.table.decls.size) :
    M.shown (set.map p.1.shift.decl) = (set.map p.2.shift.decl).map M.right.decl := by
  have all : (set.map p.1.shift.decl).filter M.keep = set.map p.1.shift.decl := by
    refine List.filter_eq_self.mpr fun d inside => ?_
    obtain ⟨a, there, rfl⟩ := List.mem_map.mp inside
    rw [fits.keep]
    exact member.keep (lt a there)
  unfold Matching.shown
  rw [all, fits.left, fits.right]
  exact member.covers.map_overloads (W.exact_pairing within holding) lt

/-- What a fragment declares has the same names in both places. -/
theorem map_find? (name : String) :
    (p.1.find? name).map M.shown = (p.2.find? name).map (List.map M.right.decl) := by
  unfold Inset.find?
  rw [W.same p member.mem, Option.map_map, Option.map_map]
  cases found : p.1.fragment.find? name with
  | none => rfl
  | some set => exact congrArg some (fits.shown_map member (lt_of_find? _ found))

/-- The scopes of a fragment lie in the same ones and have the same names in both places. -/
theorem aligned (stands : p.1.Stands u) (stands' : p.2.Stands u') {a : ScopeId} (inner : a ≠ .global)
    (lt : a.index < p.1.table.scopes.size) :
    M.Aligned (u.scope (p.1.shift.scope a)) (u'.scope (p.2.shift.scope a)) where
  parent := by
    rw [fits.left, fits.right]
    exact member.covers.parent_eq (W.exact_pairing within holding) stands stands' inner lt
  names name := by
    have table : p.2.table = p.1.table := congrArg Fragment.table (W.same p member.mem)
    rw [stands.names a inner lt, stands'.names a inner (table ▸ lt), table, Option.map_map, Option.map_map]
    cases found : (p.1.table.scope a).find? name with
    | none => rfl
    | some set => exact congrArg some (fits.shown_map member (lt_of_find? _ found))

omit member

/-- What fragments together declare has the same names in both places. -/
theorem map_findAll (name : String) : ∀ ps : List (Inset × Inset), (∀ p ∈ ps, W.Slot within p) →
    (Inset.findAll (ps.map Prod.fst) name).map M.shown =
      (Inset.findAll (ps.map Prod.snd) name).map (List.map M.right.decl)
  | [], _ => rfl
  | p :: ps, members => by
    have first := fits.map_find? (members p (List.mem_cons_self ..)) name
    have rest := map_findAll name ps fun r inside => members r (List.mem_cons_of_mem p inside)
    have others (old new : Option Overloads) : (joined old new).map (List.map M.right.decl) =
        Option.merge (· ++ ·) (old.map (List.map M.right.decl)) (new.map (List.map M.right.decl)) := by
      cases old <;> cases new <;> simp [joined]
    refine (M.map_joined _ _).trans ?_
    rw [first]
    exact (congrArg (Option.merge _ _) rest).trans (others _ _).symm

end Fits

/-! ## What has been read -/

theorem mem_of_find? {set : Overloads} {name : String} (found : (W.t.scope s).find? name = some set)
    (member : x ∈ set) : x.index < W.t.decls.size ∧ (W.t.decl x).scope = s ∧ (W.t.decl x).name = name := by
  obtain ⟨rank, built⟩ := W.built
  have binds : W.t.Binds s name x := Names.binds_of_find? found member
  exact ⟨(built.bound binds).1, (built.bound binds).2, built.laid.titled binds⟩

/-- At the outermost level only the class and its extensions have their name. -/
theorem not_keep_of_name (lt : x.index < W.t.decls.size) (global : (W.t.decl x).scope = .global)
    (name : (W.t.decl x).name = W.cls.name) (ne : x ≠ W.cls.id) : W.keep x = false := by
  obtain ⟨rank, built⟩ := W.built
  obtain ⟨set, found, -, only, -⟩ := W.sets
  obtain ⟨set', found', member⟩ := Names.find?_of_binds (built.ordered _) (built.named x lt)
  rw [global, name] at found'
  obtain rfl := Option.some.inj (found.symm.trans found')
  by_contra kept
  have inside : x ∈ set.filter W.keep := List.mem_filter.mpr ⟨member, by simpa using kept⟩
  exact ne (List.mem_singleton.mp (only ▸ inside))

/-- Extensions of the class that are not kept share its name and nothing else. -/
theorem lacks_start {M : Matching} (keep : M.keep = W.keep) (name' : M.name = W.cls.name) {name : String}
    {set : Overloads} (found : (W.t.scope s).find? name = some set) :
    (∀ d ∈ set, M.keep d = true) ∨ M.Lacks W.t.decl s name set := by
  rw [or_iff_not_imp_left]
  intro some
  obtain ⟨e, member, dropped⟩ : ∃ e ∈ set, M.keep e = false := by simpa using some
  have frame {e : DeclId} (dropped : M.keep e = false) : ∃ f ∈ W.extensions, f.id = e := by
    rw [keep] at dropped
    have not : ¬∀ f ∈ W.extensions, f.id ≠ e := fun all => by simp [keep_iff.mpr all] at dropped
    simpa using not
  obtain ⟨f, extends_, rfl⟩ := frame dropped
  obtain ⟨stands, called⟩ := W.frames f (List.mem_cons_of_mem _ extends_)
  obtain ⟨-, scope, title⟩ := mem_of_find? found member
  rw [stands.decl] at scope title
  obtain ⟨all, found', -, only, -⟩ := W.sets
  obtain rfl : ScopeId.global = s := scope
  obtain rfl : W.cls.name = name := called.symm.trans title
  obtain rfl := Option.some.inj (found.symm.trans found')
  have cls : W.cls.id ∈ set.filter W.keep := only ▸ List.mem_singleton_self _
  refine ⟨rfl, name'.symm, ⟨W.cls.id, (List.mem_filter.mp cls).1, ?_, ?_⟩, fun e' _ dropped' => ?_⟩
  · rw [keep]
    exact keep_cls
  · rw [(W.frames _ (List.mem_cons_self ..)).1.decl, Decl.isPrimaryClass, W.primary.1]
  · obtain ⟨f', extends', rfl⟩ := frame dropped'
    rw [(W.frames f' (List.mem_cons_of_mem _ extends')).1.decl, Decl.isExtension, W.extending f' extends']

theorem scope_default {t : SymbolTable} (late : t.scopes.size ≤ s.index) : t.scope s = default := by
  simp [SymbolTable.scope, Array.getD_eq_getD_getElem?, Array.getElem?_eq_none late]

/-- Twins match as they were read. -/
theorem Slot.matches_decl {p : Inset × Inset} (member : W.Slot within p) (holding : Prop) {a : DeclId}
    (lt : a.index < p.1.table.decls.size) : (W.t.decl (p.1.shift.decl a)).Matches
      (W.pairing within holding).left Pairing.right (W.t'.decl (p.2.shift.decl a)) := by
  obtain ⟨us, reached⟩ := W.reached
  obtain ⟨us', reached'⟩ := W.reached'
  obtain ⟨stands, stands'⟩ := W.stands p member.mem
  exact member.covers.matches_decl (W.exact_pairing within holding) stands stands' reached.tame.decl
    reached'.tame.decl lt

theorem Slot.allMatch_members {p : Inset × Inset} (member : W.Slot within p) (holding : Prop) {a : DeclId}
    (lt : a.index < p.1.table.decls.size) : Stmt.AllMatch (W.pairing within holding).left Pairing.right
      (W.t.members (p.1.shift.decl a)) (W.t'.members (p.2.shift.decl a)) := by
  obtain ⟨us, reached⟩ := W.reached
  obtain ⟨us', reached'⟩ := W.reached'
  obtain ⟨stands, stands'⟩ := W.stands p member.mem
  exact member.covers.allMatch_members (W.exact_pairing within holding) stands stands' reached.tame.members
    reached'.tame.members lt

/-- A twin at the outermost level has another name than the class. -/
theorem Slot.name_ne {p : Inset × Inset} (member : W.Slot within p) {a : DeclId}
    (lt : a.index < p.1.table.decls.size) (global : (W.t.decl (p.1.shift.decl a)).scope = .global) :
    (W.t.decl (p.1.shift.decl a)).name ≠ W.cls.name := by
  intro name
  have present := Nat.lt_of_lt_of_le (Inset.decl_lt_stop lt) (W.stands p member.mem).1.within.1
  have dropped := not_keep_of_name present global name (member.decl_ne lt (List.mem_cons_self ..)).symm
  rw [member.keep lt] at dropped
  cases dropped

/-! ## Before the passes -/

/-- The matching of two units that have only been read. -/
noncomputable def before (W : Twins) : Matching :=
  W.matching False False True False.elim (fun _ => id) (Since.refl W)

theorem fits_before (W : Twins) : W.Fits False False W.before := fits_matching ..

theorem decl_eq_default_of_late (late : Late W.t.decls.size W.t'.decls.size x.index x'.index) :
    W.t.decl x = default ∧ W.t'.decl x' = default := by
  obtain ⟨k, index, index'⟩ := late
  exact ⟨SymbolTable.decl_eq_default (by omega), SymbolTable.decl_eq_default (by omega)⟩

/-- Paired declarations match. -/
theorem matches_before (paired : W.before.left.decl x = W.before.right.decl x') :
    (W.t.decl x).Matches W.before.left W.before.right (W.t'.decl x') := by
  obtain ⟨us, reached⟩ := W.reached
  obtain ⟨us', reached'⟩ := W.reached'
  rcases twin_of_decl paired with ⟨p, member, a, lt, rfl, rfl⟩ | ⟨rfl, rfl⟩ | late
  · exact member.matches_decl False lt
  · obtain ⟨frame, -⟩ := W.frames _ (List.mem_cons_self ..)
    refine ⟨?_, reached.tame.decl _, reached'.tame.decl _⟩
    rw [frame.decl, W.frame'.decl, W.name', W.primary.1, W.primary.2]
    exact congrArg (Decl.mk _ _ · _) W.before.global
  · obtain ⟨none, none'⟩ := decl_eq_default_of_late late
    refine ⟨?_, reached.tame.decl _, reached'.tame.decl _⟩
    rw [none, none']
    exact congrArg (Decl.mk _ _ · _) W.before.global

/-- So do their members, which the class is yet to be paired for. -/
theorem allMatch_before (paired : W.before.left.held x = W.before.right.held x') :
    Stmt.AllMatch W.before.left W.before.right (W.t.members x) (W.t'.members x') := by
  rcases twin_of_held paired with ⟨p, member, a, lt, rfl, rfl⟩ | ⟨held, -⟩ | late
  · exact member.allMatch_members False lt
  · exact held.elim
  · obtain ⟨none, none'⟩ := decl_eq_default_of_late late
    unfold SymbolTable.members
    rw [none, none']
    exact .nil

/-- Paired scopes lie in the same ones and have the same names. -/
theorem aligned_before (paired : W.before.left.scope s = W.before.right.scope s') :
    W.before.Aligned (W.t.scope s) (W.t'.scope s') := by
  rcases twin_of_scope paired with ⟨p, member, a, inner, lt, rfl, rfl⟩ | ⟨rfl, rfl⟩ | ⟨k, index, index'⟩ |
    ⟨inside, -⟩
  · obtain ⟨stands, stands'⟩ := W.stands p member.mem
    exact W.fits_before.aligned member stands stands' inner lt
  · refine ⟨by rw [W.outermost.1, W.outermost.2]; rfl, fun name => ?_⟩
    by_cases here : name = W.cls.name
    · obtain ⟨set, found, found', only, -⟩ := W.sets
      rw [here, found, found']
      refine congrArg some ?_
      show (set.filter W.keep).map _ = _
      rw [show set.filter W.keep = [W.cls.id] from only]
      exact congrArg (fun d => [d]) ((W.exact_pairing False False).decl_iff.mpr (.extra (.inl ⟨rfl, rfl⟩)))
    · rw [(W.names name here).1, (W.names name here).2]
      exact W.fits_before.map_findAll name W.outside fun p member => .inl member
  · rw [scope_default (t := W.t) (by omega), scope_default (t := W.t') (by omega)]
    exact ⟨rfl, fun _ => rfl⟩
  · exact inside.elim

/-- The scope of the class is not paired. -/
theorem scope_ne_before (paired : W.before.left.scope s = W.before.right.scope s') : s' ≠ W.cls'.scope := by
  rcases twin_of_scope paired with twin | ⟨rfl, rfl⟩ | ⟨k, index, index'⟩ | ⟨inside, -⟩
  · exact twin.ne
  · exact W.frame'.inner.symm
  · intro same
    have lt := W.frame'.opened
    rw [← same] at lt
    omega
  · exact inside.elim

/-- Two units that have only been read match outside the class. -/
theorem joins_before (W : Twins) : W.before.Joins W.t'.decls.size W.t W.t' := by
  have exact' := W.exact_pairing False False
  obtain ⟨us, reached⟩ := W.reached
  obtain ⟨us', reached'⟩ := W.reached'
  obtain ⟨rank, built⟩ := W.built
  obtain ⟨rank', built'⟩ := W.built'
  refine
  { decl := matches_before
    members := allMatch_before
    extension := fun _ {x x'} paired extension => ?extension
    apart := fun _ {x x'} paired primary global => ?apart
    scope := fun paired => .inl (aligned_before paired)
    single := fun _ {s s'} paired => .inl fun other => plain_of_paired paired (scope_ne_before paired) other
    lacks := lacks_start rfl rfl
    own := rfl
    active := ?active
    constant := fun _ => ?constant
    binding := fun _ => ?binding
    decls := ⟨0, rfl, rfl⟩
    scopes := ⟨0, rfl, rfl⟩
    confined := .refl reached.layered.1 built.ordered
    confined' := .refl reached'.layered.1 built'.ordered
    bounded := W.t'.bounded_size }
  case extension =>
    rcases twin_of_decl paired with ⟨p, member, a, lt, rfl, rfl⟩ | ⟨rfl, rfl⟩ | late
    · exact member.covers.held_eq exact' lt
    · rw [(W.frames _ (List.mem_cons_self ..)).1.decl, Decl.isExtension, W.primary.1] at extension
      cases extension
    · exact exact'.held_iff.mpr (.extra (.inr late))
  case apart =>
    rcases twin_of_held paired with ⟨p, member, a, lt, rfl, rfl⟩ | ⟨held, -⟩ | late
    · exact member.name_ne lt global
    · exact held.elim
    · rw [(decl_eq_default_of_late late).1] at primary
      cases primary
  case active =>
    rw [W.idle.1, W.idle.2]
    exact congrArg (fun s => [s]) W.before.global
  case constant =>
    unfold SymbolTable.constant?
    rw [W.constants.1, W.constants.2]
    rfl
  case binding => rw [W.binding.1, W.binding.2]; simp

end Twins

end Deferral
