import Mathlib.Logic.Function.Basic
import Deferral.Proofs.Extension.Fragment
import Deferral.Proofs.Matching.Change
import Deferral.Proofs.Matching.SecondPass
import Deferral.Proofs.Typing.Layers

/-!
# Numbers that belong together

Where two units consist of the same fragments in different places, the numbers of a fragment in the one
belong to its numbers in the other. Labels can be given so that two numbers have the same label exactly if
they belong together.
-/

namespace Deferral

/-! ## Labels for a relation -/

section

open Classical

/-- Numbers on the right get even labels, and a number on the left that of its partner, if it has one. -/
noncomputable def labelBy (R : Nat → Nat → Prop) (x : Nat) : Nat :=
  if h : ∃ y, R x y then 2 * h.choose else 2 * x + 1

variable {R S : Nat → Nat → Prop} {x x' y : Nat}

theorem labelBy_of (unique : ∀ x y z, R x y → R x z → y = z) (h : R x y) : labelBy R x = 2 * y := by
  have partner : ∃ y, R x y := ⟨y, h⟩
  rw [labelBy, dif_pos partner, unique _ _ _ partner.choose_spec h]

theorem labelBy_eq_iff (unique : ∀ x y z, R x y → R x z → y = z) : labelBy R x = 2 * y ↔ R x y := by
  refine ⟨fun same => ?_, labelBy_of unique⟩
  unfold labelBy at same
  split at same
  · rename_i partner
    have spec := partner.choose_spec
    rwa [show partner.choose = y by omega] at spec
  · omega

theorem labelBy_injective (single : ∀ x x' y, R x y → R x' y → x = x') :
    Function.Injective (labelBy R) := by
  intro x x' same
  unfold labelBy at same
  split at same <;> split at same
  · rename_i partner partner'
    have spec := partner.choose_spec
    rw [show partner.choose = partner'.choose by omega] at spec
    exact single _ _ _ spec partner'.choose_spec
  · omega
  · omega
  · omega

/-- The labels for a relation lead to those for a wider one, and even ones stay. -/
noncomputable def relabelBy (S : Nat → Nat → Prop) (n : Nat) : Nat :=
  if n % 2 = 0 then n else labelBy S (n / 2)

@[simp] theorem relabelBy_even (S : Nat → Nat → Prop) (y : Nat) : relabelBy S (2 * y) = 2 * y := by
  rw [relabelBy, if_pos (by omega)]

theorem relabelBy_labelBy (unique : ∀ x y z, S x y → S x z → y = z) (wider : ∀ x y, R x y → S x y)
    (x : Nat) : relabelBy S (labelBy R x) = labelBy S x := by
  by_cases partner : ∃ y, R x y
  · have spec := partner.choose_spec
    rw [labelBy, dif_pos partner, relabelBy_even, labelBy_of unique (wider _ _ spec)]
  · rw [labelBy, dif_neg partner, relabelBy, if_neg (by omega), show (2 * x + 1) / 2 = x by omega]

end

/-! ## Pairings -/

/-- Which numbers of two tables belong together. -/
structure Pairing where
  decl : Nat → Nat → Prop
  held : Nat → Nat → Prop
  block : Nat → Nat → Prop
  scope : Nat → Nat → Prop

namespace Pairing

variable (P Q : Pairing)

/-- No number has two partners, and no declaration or scope on the right has two. -/
structure Exact : Prop where
  decl : ∀ x y z, P.decl x y → P.decl x z → y = z
  single : ∀ x x' y, P.decl x y → P.decl x' y → x = x'
  heldDecl : ∀ x y, P.held x y → P.decl x y
  block : ∀ x y z, P.block x y → P.block x z → y = z
  scope : ∀ x y z, P.scope x y → P.scope x z → y = z

noncomputable def left : Labels where
  decl x := ⟨labelBy P.decl x.index⟩
  held x := ⟨labelBy P.held x.index⟩
  block := labelBy P.block
  scope s := ⟨labelBy P.scope s.index⟩

/-- The labels on the right are the same for all pairings. -/
def right : Labels where
  decl x := ⟨2 * x.index⟩
  held x := ⟨2 * x.index⟩
  block b := 2 * b
  scope s := ⟨2 * s.index⟩

variable {P Q} (h : P.Exact)

include h

theorem Exact.held (x y z : Nat) (first : P.held x y) (second : P.held x z) : y = z :=
  h.decl x y z (h.heldDecl x y first) (h.heldDecl x z second)

theorem Exact.decl_iff {x x' : DeclId} : P.left.decl x = right.decl x' ↔ P.decl x.index x'.index := by
  refine Iff.trans ?_ (labelBy_eq_iff h.decl)
  exact ⟨fun same => congrArg DeclId.index same, fun same => congrArg DeclId.mk same⟩

theorem Exact.held_iff {x x' : DeclId} : P.left.held x = right.held x' ↔ P.held x.index x'.index := by
  refine Iff.trans ?_ (labelBy_eq_iff h.held)
  exact ⟨fun same => congrArg DeclId.index same, fun same => congrArg DeclId.mk same⟩

theorem Exact.block_iff {b b' : Nat} : P.left.block b = right.block b' ↔ P.block b b' :=
  labelBy_eq_iff h.block

theorem Exact.scope_iff {s s' : ScopeId} :
    P.left.scope s = right.scope s' ↔ P.scope s.index s'.index := by
  refine Iff.trans ?_ (labelBy_eq_iff h.scope)
  exact ⟨fun same => congrArg ScopeId.index same, fun same => congrArg ScopeId.mk same⟩

theorem Exact.injective_left : Function.Injective P.left.decl := fun _ _ same =>
  congrArg DeclId.mk (labelBy_injective h.single (congrArg DeclId.index same))

omit h

theorem injective_right : Function.Injective right.decl := fun _ _ same =>
  congrArg DeclId.mk (by have := congrArg DeclId.index same; simp only [right] at this; omega)

theorem injective_scope : Function.Injective right.scope := fun s s' same =>
  congrArg ScopeId.mk (by have := congrArg ScopeId.index same; simp only [right] at this; omega)

/-- What belongs together in the one pairing does in the other. -/
structure Within (P Q : Pairing) : Prop where
  decl : ∀ x y, P.decl x y → Q.decl x y
  held : ∀ x y, P.held x y → Q.held x y
  block : ∀ x y, P.block x y → Q.block x y
  scope : ∀ x y, P.scope x y → Q.scope x y

/-- The labels for the labels of a narrower pairing. -/
noncomputable def relabel (Q : Pairing) : Labels where
  decl n := ⟨relabelBy Q.decl n.index⟩
  held n := ⟨relabelBy Q.held n.index⟩
  block := relabelBy Q.block
  scope n := ⟨relabelBy Q.scope n.index⟩

theorem Within.left (within : P.Within Q) (h : Q.Exact) : P.left.through Q.relabel = Q.left := by
  unfold Labels.through Pairing.left relabel
  congr 1
  · funext x
    exact congrArg DeclId.mk (relabelBy_labelBy h.decl within.decl _)
  · funext x
    exact congrArg DeclId.mk (relabelBy_labelBy h.held within.held _)
  · funext b
    exact relabelBy_labelBy h.block within.block _
  · funext s
    exact congrArg ScopeId.mk (relabelBy_labelBy h.scope within.scope _)

theorem right_through (Q : Pairing) : right.through Q.relabel = right := by
  unfold Labels.through right relabel
  simp [Function.comp_def]

end Pairing

/-! ## Fragments in two places -/

/-- The numbers of fragments that stand in two places belong together in order, and so do some others. -/
inductive Partners (slots : Inset × Inset → Prop) (d : Extent → Nat) (extra : Nat → Nat → Prop) :
    Nat → Nat → Prop
  | slot {s : Inset × Inset} {n : Nat} (member : slots s) (lt : d s.1.start + n < d s.1.stop) :
      Partners slots d extra (d s.1.start + n) (d s.2.start + n)
  | extra {x y : Nat} (other : extra x y) : Partners slots d extra x y

/-- Two cells share no number. -/
theorem Cell.Apart.ne {c c' : Cell} (h : c.Apart c') {d : Extent → Nat} (mono : Monotone d) {x y : Nat}
    (inside : d c.start ≤ x ∧ x < d c.stop) (inside' : d c'.start ≤ y ∧ y < d c'.stop) : x ≠ y := by
  rcases h with before | after
  · have le := mono before
    omega
  · have le := mono after
    omega

namespace Partners

variable {slots : Inset × Inset → Prop} {d : Extent → Nat} {extra : Nat → Nat → Prop} (mono : Monotone d)

include mono

theorem unique
    (apart : ∀ s r, slots s → slots r → s ≠ r → (Cell.part s.1).Apart (.part r.1))
    (others : ∀ s x y, slots s → extra x y → ¬(d s.1.start ≤ x ∧ x < d s.1.stop))
    (one : ∀ x y z, extra x y → extra x z → y = z) :
    ∀ x y z, Partners slots d extra x y → Partners slots d extra x z → y = z := by
  intro x y z first second
  cases first with
  | @slot s n member lt =>
    generalize at_ : d s.1.start + n = x at second
    cases second with
    | @slot r m member' lt' =>
      by_cases same : s = r
      · subst same
        omega
      · exact absurd at_ ((apart s r member member' same).ne mono ⟨Nat.le_add_right _ _, lt⟩
          ⟨Nat.le_add_right _ _, lt'⟩)
    | extra other => exact absurd ⟨by omega, by omega⟩ (others s x z member other)
  | extra other =>
    cases second with
    | @slot r m member' lt' =>
      exact absurd ⟨Nat.le_add_right _ _, lt'⟩ (others r _ y member' other)
    | extra other' => exact one x y z other other'

theorem single
    (long : ∀ s n, slots s → d s.1.start + n < d s.1.stop → d s.2.start + n < d s.2.stop)
    (apart : ∀ s r, slots s → slots r → s ≠ r → (Cell.part s.2).Apart (.part r.2))
    (others : ∀ s x y, slots s → extra x y → ¬(d s.2.start ≤ y ∧ y < d s.2.stop))
    (one : ∀ x x' y, extra x y → extra x' y → x = x') :
    ∀ x x' y, Partners slots d extra x y → Partners slots d extra x' y → x = x' := by
  intro x x' y first second
  cases first with
  | @slot s n member lt =>
    have lt := long s n member lt
    generalize at_ : d s.2.start + n = y at second
    cases second with
    | @slot r m member' lt' =>
      have lt' := long r m member' lt'
      by_cases same : s = r
      · subst same
        omega
      · exact absurd at_ ((apart s r member member' same).ne mono ⟨Nat.le_add_right _ _, lt⟩
          ⟨Nat.le_add_right _ _, lt'⟩)
    | extra other => exact absurd ⟨by omega, by omega⟩ (others s x' y member other)
  | extra other =>
    cases second with
    | @slot r m member' lt' =>
      exact absurd ⟨Nat.le_add_right _ _, long r m member' lt'⟩ (others r x _ member' other)
    | extra other' => exact one x x' y other other'

end Partners

/-! ## Units with the same fragments

Two units consist of the same fragments, but a class of the one has several of them between its braces,
where the other has extensions. Until the class takes in its extensions, what lies outside of both matches;
from then on, what lies inside does as well.
-/

/-! ## What has been reached is tame -/

mutual

theorem Ty.Normal.tame : ∀ {t : Ty}, t.Normal → t.Tame
  | .decltype _, h => h.2
  | .function _ _, h => ⟨Ty.NormalAll.tame h.1, h.2.tame⟩
  | .reference t, h => Ty.Normal.tame (t := t) h.1
  | .qualified t _, h => Ty.Normal.tame (t := t) h.1
  | .pointer t, h => Ty.Normal.tame (t := t) h
  | .array t _, h => Ty.Normal.tame (t := t) h
  | .sequence t, h => Ty.Normal.tame (t := t) h
  | .void, _ | .bool, _ | .integer _ _, _ | .float _, _ | .auto, _ | .decltypeAuto, _ | .named _ _ _, _
  | .metatype, _ | .deferred _, _ => trivial

theorem Ty.NormalAll.tame : ∀ {ts : List Ty}, Ty.NormalAll ts → Ty.AllTame ts
  | [], _ => trivial
  | _ :: _, h => ⟨h.1.tame, Ty.NormalAll.tame h.2⟩

end

theorem Part.Kept.tame {type : Ty} (h : (Part.type type).Kept) : type.Tame := by
  rcases h with deferred | normal
  · cases type with
    | deferred f => exact trivial
    | _ => cases deferred
  · exact normal.tame

theorem Part.Kept.tame_type {e : Expr} (h : (Part.expression e).Kept) : e.type.Tame := by
  rcases h with normal | ⟨-, untyped⟩
  · exact normal.type.tame
  · rw [untyped]
    exact trivial

theorem Declared.tame_of_parts {k : Declared} (kept : ∀ p ∈ k.parts, p.Kept) : k.Tame := by
  cases k with
  | object sort type init =>
    refine ⟨(kept _ (List.mem_cons_self ..)).tame, fun e member => ?_⟩
    refine (kept (.expression e) (List.mem_cons_of_mem _ (List.mem_map_of_mem ?_))).tame_type
    exact Option.mem_toList.mpr member
  | parameter type | super type => exact (kept _ (List.mem_cons_self ..)).tame
  | callable sort c =>
    refine ⟨(kept _ (List.mem_cons_self ..)).tame,
      (kept _ (List.mem_cons_of_mem _ (List.mem_cons_self ..))).tame, fun e member => ?_⟩
    exact (kept (.expression e) (List.mem_cons_of_mem _ (List.mem_cons_of_mem _
      (List.mem_map_of_mem member)))).tame_type
  | classDecl sort kind body => exact (kept _ (List.mem_cons_self ..)).tame
  | typeParameter => exact trivial

/-- Nothing but tame types is in a table, in the members of its classes and in the units. -/
structure SymbolTable.AllTame (t : SymbolTable) (us : List SourceUnit) : Prop where
  decl : ∀ id, (t.decl id).kind.Tame
  members : ∀ id, ∀ e ∈ Stmt.expressionsIn (t.members id), e.type.Tame
  units : ∀ u ∈ us, ∀ e ∈ Stmt.expressionsIn u.body, e.type.Tame

theorem Reached.tame {t : SymbolTable} {us : List SourceUnit} (h : Reached t us) : t.AllTame us where
  decl id := Declared.tame_of_parts fun p member => h.kept (.inl ⟨id, member⟩)
  members id e member := by
    have kept (p : Part) (inside : p ∈ (t.decl id).kind.parts) : p.Kept := h.kept (.inl ⟨id, inside⟩)
    unfold SymbolTable.members Decl.members? at member
    cases kind : (t.decl id).kind with
    | classDecl sort type body =>
      rw [kind] at member kept
      exact (kept (.expression e) (List.mem_cons_of_mem _ (List.mem_map_of_mem member))).tame_type
    | _ => simp [kind, Stmt.expressionsIn] at member
  units u inside e member :=
    (h.kept (p := .expression e) (.inr ⟨u, inside, List.mem_map_of_mem member⟩)).tame_type

/-! ## Labels for labels -/

section

variable {L R : Labels} (M : Labels)

theorem Stmt.AllMatch.through {body body' : List Stmt} (h : Stmt.AllMatch L R body body') :
    Stmt.AllMatch (L.through M) (R.through M) body body' :=
  ⟨by rw [← Stmt.allLabelled_allLabelled, h.same, Stmt.allLabelled_allLabelled], h.tame, h.tame'⟩

theorem Decl.Matches.through {d d' : Decl} (h : d.Matches L R d') :
    d.Matches (L.through M) (R.through M) d' :=
  ⟨by rw [← Decl.labelled_labelled, h.same, Decl.labelled_labelled], h.tame, h.tame'⟩

end

/-! ## Fragments in two places -/

/-- The numbers of a fragment that stands in two places belong together. -/
structure Pairing.Covers (P : Pairing) (s : Inset × Inset) : Prop where
  same : s.2.fragment = s.1.fragment
  decl : ∀ n < s.1.table.decls.size, P.decl (s.1.start.decls + n) (s.2.start.decls + n)
  held : ∀ n < s.1.table.decls.size, P.held (s.1.start.decls + n) (s.2.start.decls + n)
  block : ∀ n < s.1.table.nextBlock, P.block (s.1.start.blocks + n) (s.2.start.blocks + n)
  scope : ∀ n, n + 1 < s.1.table.scopes.size → P.scope (s.1.start.scopes + n) (s.2.start.scopes + n)
  outer : P.scope s.1.base.innermost.index s.2.base.innermost.index

/-- The labels that a fragment has where it stands. -/
def Inset.labels (p : Inset) (L : Labels) : Labels where
  decl := L.decl ∘ p.shift.decl
  held := L.held ∘ p.shift.decl
  block := L.block ∘ p.shift.block
  scope := L.scope ∘ p.shift.scope

namespace Pairing.Covers

variable {P : Pairing} (exact : P.Exact) {s : Inset × Inset} (h : P.Covers s) {t t' : SymbolTable}

include exact h

theorem decl_eq {x : DeclId} (lt : x.index < s.1.table.decls.size) :
    P.left.decl (s.1.shift.decl x) = right.decl (s.2.shift.decl x) :=
  exact.decl_iff.mpr (h.decl x.index lt)

theorem held_eq {x : DeclId} (lt : x.index < s.1.table.decls.size) :
    P.left.held (s.1.shift.decl x) = right.held (s.2.shift.decl x) :=
  exact.held_iff.mpr (h.held x.index lt)

theorem scope_eq {a : ScopeId} (lt : a.index < s.1.table.scopes.size) :
    P.left.scope (s.1.shift.scope a) = right.scope (s.2.shift.scope a) := by
  refine exact.scope_iff.mpr ?_
  by_cases global : a = .global
  · subst global
    rw [Shift.scope_global, Shift.scope_global]
    exact h.outer
  · have positive : a.index ≠ 0 := fun zero => global (congrArg ScopeId.mk zero)
    unfold Shift.scope
    rw [if_neg global, if_neg global]
    exact h.scope _ (by omega)

theorem agrees : s.1.shift.Agrees s.1.table.extent (s.1.labels P.left) P.left ∧
    s.2.shift.Agrees s.1.table.extent (s.1.labels P.left) right :=
  ⟨⟨fun _ _ => rfl, fun _ _ => rfl, fun _ _ => rfl, fun _ _ => rfl⟩,
    fun _ lt => h.decl_eq exact lt, fun _ lt => h.held_eq exact lt,
    fun b lt => exact.block_iff.mpr (h.block b lt), fun _ lt => h.scope_eq exact lt⟩

/-- What stands for the same in both places has the same labels. -/
theorem same_of_sames {β : Type} {f f₁ f₂ : Labels → β} (first : s.1.shift.Same s.1.table.extent f f₁)
    (second : s.2.shift.Same s.1.table.extent f f₂) : f₁ P.left = f₂ right :=
  (first _ _ (h.agrees exact).1).symm.trans (second _ _ (h.agrees exact).2)

omit exact in
theorem table : s.2.table = s.1.table := congrArg Fragment.table h.same

variable (stands : s.1.Stands t) (stands' : s.2.Stands t')

include stands stands'

theorem matches_decl (tame : ∀ x, (t.decl x).kind.Tame) (tame' : ∀ x, (t'.decl x).kind.Tame) {x : DeclId}
    (lt : x.index < s.1.table.decls.size) :
    (t.decl (s.1.shift.decl x)).Matches P.left right (t'.decl (s.2.shift.decl x)) := by
  have second := stands'.decl x (h.table ▸ lt)
  rw [h.table] at second
  exact ⟨h.same_of_sames exact (stands.decl x lt) second, tame _, tame' _⟩

theorem allMatch_members (tame : ∀ x, ∀ e ∈ Stmt.expressionsIn (t.members x), e.type.Tame)
    (tame' : ∀ x, ∀ e ∈ Stmt.expressionsIn (t'.members x), e.type.Tame) {x : DeclId}
    (lt : x.index < s.1.table.decls.size) :
    Stmt.AllMatch P.left right (t.members (s.1.shift.decl x)) (t'.members (s.2.shift.decl x)) := by
  have second := stands'.members x (h.table ▸ lt)
  rw [h.table] at second
  exact ⟨h.same_of_sames exact (stands.members x lt) second, tame _, tame' _⟩

theorem parent_eq {a : ScopeId} (inner : a ≠ .global) (lt : a.index < s.1.table.scopes.size) :
    ((t.scope (s.1.shift.scope a)).parent.map P.left.scope) =
      (t'.scope (s.2.shift.scope a)).parent.map right.scope := by
  obtain ⟨rank, isRead⟩ := s.1.fragment.isRead
  rw [stands.parent a inner lt, stands'.parent a inner (h.table ▸ lt), h.table, Option.map_map, Option.map_map]
  cases outer : (s.1.table.scope a).parent with
  | none => rfl
  | some p => exact congrArg some (h.scope_eq exact (isRead.built.laid.parents outer))

theorem scopeOf_eq (owner : ScopeOwner) (owned : s.1.table.Owned owner) :
    (t.scopeOf? (s.1.shift.owner owner)).map P.left.scope =
      (t'.scopeOf? (s.2.shift.owner owner)).map right.scope := by
  obtain ⟨rank, isRead⟩ := s.1.fragment.isRead
  rw [stands.saved owner owned, stands'.saved owner (h.table ▸ owned), h.table, Option.map_map, Option.map_map]
  cases saved : s.1.table.scopeOf? owner with
  | none => rfl
  | some a => exact congrArg some (h.scope_eq exact (isRead.built.owned saved).2.1)

omit stands stands' in
/-- The declarations of a name belong together. -/
theorem map_overloads {set : Overloads} (lt : ∀ d ∈ set, d.index < s.1.table.decls.size) :
    (set.map s.1.shift.decl).map P.left.decl = (set.map s.2.shift.decl).map right.decl := by
  rw [List.map_map, List.map_map]
  exact List.map_congr_left fun d member => h.decl_eq exact (lt d member)

end Pairing.Covers

/-! ## Twins -/

/-- Two tables into which the same fragments have been read: `outside` those at the outermost level, `inside`
those between the braces of the class `cls'` of the one, where the other has the class `cls` and its
`extensions`. -/
structure Twins where
  t : SymbolTable
  t' : SymbolTable
  outside : List (Inset × Inset)
  inside : List (Inset × Inset)
  cls : Frame
  cls' : Frame
  extensions : List Frame
  reached : ∃ us, Reached t us
  reached' : ∃ us, Reached t' us
  smaller : t'.decls.size ≤ t.decls.size
  built : ∃ rank, t.Built rank
  built' : ∃ rank, t'.Built rank
  idle : t.active = [.global] ∧ t'.active = [.global]
  constants : t.constants = [] ∧ t'.constants = []
  binding : t.binding = [] ∧ t'.binding = []
  outermost : (t.scope .global).parent = none ∧ (t'.scope .global).parent = none
  same : ∀ s ∈ outside ++ inside, s.2.fragment = s.1.fragment
  stands : ∀ s ∈ outside ++ inside, s.1.Stands t ∧ s.2.Stands t'
  outer : ∀ s ∈ outside, s.1.base.innermost = .global ∧ s.2.base.innermost = .global
  inner : ∀ s ∈ inside, (∃ f ∈ cls :: extensions, s.1.base.innermost = f.scope) ∧
    s.2.base.innermost = cls'.scope
  apart : (outside ++ inside).Pairwise fun s r =>
    (Cell.part s.1).Apart (.part r.1) ∧ (Cell.part s.2).Apart (.part r.2)
  heads : ∀ s ∈ outside ++ inside, (∀ f ∈ cls :: extensions, (Cell.part s.1).Apart (.head f.start)) ∧
    (Cell.part s.2).Apart (.head cls'.start)
  lone : (cls :: extensions).Pairwise fun f g => (Cell.head f.start).Apart (.head g.start)
  frames : ∀ f ∈ cls :: extensions, f.Stands t ∧ f.name = cls.name
  frame' : cls'.Stands t'
  name' : cls'.name = cls.name
  primary : cls.sort = .primary ∧ cls'.sort = .primary
  extending : ∀ f ∈ extensions, f.sort = .extension
  /-- The class and its extensions share their name, which nothing else has at the outermost level. -/
  sets : ∃ set, (t.scope .global).find? cls.name = some set ∧
    (t'.scope .global).find? cls.name = some [cls'.id] ∧
    set.filter (fun d => extensions.all fun f => f.id ≠ d) = [cls.id] ∧
    set.filter (fun d => !extensions.all fun f => f.id ≠ d) = extensions.map Frame.id
  names : ∀ name ≠ cls.name, (t.scope .global).find? name = Inset.findAll (outside.map Prod.fst) name ∧
    (t'.scope .global).find? name = Inset.findAll (outside.map Prod.snd) name
  parts : (cls :: extensions).flatMap Frame.parts = inside.map Prod.fst
  parts' : cls'.parts = inside.map Prod.snd
  /-- The fragments inside declare different names, and none of them twice. -/
  unlike : inside.Pairwise fun s r => ∀ name, s.1.fragment.find? name = none ∨ r.1.fragment.find? name = none
  single : ∀ s ∈ inside, ∀ name set, s.1.fragment.find? name = some set → set.length ≤ 1

namespace Twins

variable (W : Twins) (within holding : Prop)

/-- The pairs of fragments that match by now. -/
def Slot (s : Inset × Inset) : Prop := s ∈ W.outside ∨ within ∧ s ∈ W.inside

/-- Declarations and scopes that are made later belong together in order. -/
def Late (n n' x y : Nat) : Prop := ∃ k, x = n + k ∧ y = n' + k

/-- The numbers that belong together, those `within` the class or not; the class itself may be among those
that hold what belongs together. -/
def pairing : Pairing where
  decl := Partners (W.Slot within) Extent.decls fun x y =>
    x = W.cls.id.index ∧ y = W.cls'.id.index ∨ Late W.t.decls.size W.t'.decls.size x y
  held := Partners (W.Slot within) Extent.decls fun x y =>
    holding ∧ x = W.cls.id.index ∧ y = W.cls'.id.index ∨ Late W.t.decls.size W.t'.decls.size x y
  block := Partners (W.Slot within) Extent.blocks fun _ _ => False
  scope := Partners (W.Slot within) Extent.scopes fun x y =>
    x = 0 ∧ y = 0 ∨ Late W.t.scopes.size W.t'.scopes.size x y ∨
      within ∧ (∃ f ∈ W.cls :: W.extensions, x = f.scope.index) ∧ y = W.cls'.scope.index

variable {W within holding}

theorem Slot.mem {s : Inset × Inset} (h : W.Slot within s) : s ∈ W.outside ++ W.inside :=
  List.mem_append.mpr (h.imp_right And.right)

theorem Slot.apart {s r : Inset × Inset} (h : W.Slot within s) (h' : W.Slot within r) (ne : s ≠ r) :
    (Cell.part s.1).Apart (.part r.1) ∧ (Cell.part s.2).Apart (.part r.2) := by
  have symm : Std.Symm fun s r : Inset × Inset =>
      (Cell.part s.1).Apart (.part r.1) ∧ (Cell.part s.2).Apart (.part r.2) :=
    ⟨fun _ _ both => ⟨both.1.symm, both.2.symm⟩⟩
  exact W.apart.forall h.mem h'.mem ne

theorem monotone_decls : Monotone Extent.decls := fun _ _ le => le.1

theorem monotone_scopes : Monotone Extent.scopes := fun _ _ le => le.2.1

theorem monotone_blocks : Monotone Extent.blocks := fun _ _ le => le.2.2

theorem Slot.stop_eq {s : Inset × Inset} (h : W.Slot within s) :
    s.2.stop = ⟨s.2.start.decls + s.1.table.decls.size, s.2.start.scopes + (s.1.table.scopes.size - 1),
      s.2.start.blocks + s.1.table.nextBlock⟩ := by
  unfold Inset.stop
  rw [show s.2.table = s.1.table from congrArg Fragment.table (W.same s h.mem)]
  rfl

theorem start_pos (p : Inset) : 0 < p.start.scopes := Nat.lt_of_le_of_lt (Nat.zero_le _) p.outside

/-- No fragment has the number of a class or an extension, or a later one. -/
theorem Slot.not_head {s : Inset × Inset} (h : W.Slot within s) {f : Frame} (member : f ∈ W.cls :: W.extensions) :
    ¬(s.1.start.decls ≤ f.id.index ∧ f.id.index < s.1.stop.decls) ∧
      ¬(s.1.start.scopes ≤ f.scope.index ∧ f.scope.index < s.1.stop.scopes) := by
  have apart := (W.heads s h.mem).1 f member
  constructor
  · exact fun inside => apart.ne monotone_decls inside ⟨Nat.le_refl _, Nat.lt_succ_self _⟩ rfl
  · exact fun inside => apart.ne monotone_scopes inside ⟨Nat.le_refl _, Nat.lt_succ_self _⟩ rfl

theorem Slot.not_head' {s : Inset × Inset} (h : W.Slot within s) :
    ¬(s.2.start.decls ≤ W.cls'.id.index ∧ W.cls'.id.index < s.2.stop.decls) ∧
      ¬(s.2.start.scopes ≤ W.cls'.scope.index ∧ W.cls'.scope.index < s.2.stop.scopes) := by
  have apart := (W.heads s h.mem).2
  constructor
  · exact fun inside => apart.ne monotone_decls inside ⟨Nat.le_refl _, Nat.lt_succ_self _⟩ rfl
  · exact fun inside => apart.ne monotone_scopes inside ⟨Nat.le_refl _, Nat.lt_succ_self _⟩ rfl

theorem cls_lt : W.cls.id.index < W.t.decls.size := (W.frames _ (List.mem_cons_self ..)).1.declared

theorem cls_lt' : W.cls'.id.index < W.t'.decls.size := W.frame'.declared

theorem exact_pairing (W : Twins) (within holding : Prop) : (W.pairing within holding).Exact where
  decl := by
    refine Partners.unique monotone_decls (fun s r h h' ne => (h.apart h' ne).1) (fun s x y h other => ?_) ?_
    · rcases other with ⟨rfl, -⟩ | ⟨k, rfl, -⟩
      · exact (h.not_head (List.mem_cons_self ..)).1
      · have le := (W.stands s h.mem).1.within.1
        exact fun inside => absurd (Nat.lt_of_lt_of_le inside.2 le) (by simp [SymbolTable.extent])
    · have lt := W.cls_lt
      rintro x y z (⟨rfl, rfl⟩ | ⟨k, rfl, rfl⟩) (⟨same, rfl⟩ | ⟨k', same, rfl⟩) <;> omega
  single := by
    refine Partners.single monotone_decls (fun s n h lt => ?_) (fun s r h h' ne => (h.apart h' ne).2)
      (fun s x y h other => ?_) ?_
    · rw [h.stop_eq]
      exact Nat.add_lt_add_left (Nat.lt_of_add_lt_add_left lt) _
    · rcases other with ⟨-, rfl⟩ | ⟨k, -, rfl⟩
      · exact h.not_head'.1
      · have le := (W.stands s h.mem).2.within.1
        exact fun inside => absurd (Nat.lt_of_lt_of_le inside.2 le) (by simp [SymbolTable.extent])
    · have lt := W.cls_lt'
      rintro x x' y (⟨rfl, rfl⟩ | ⟨k, rfl, rfl⟩) (⟨rfl, same⟩ | ⟨k', rfl, same⟩) <;> omega
  heldDecl x y h := by
    cases h with
    | slot member lt => exact .slot member lt
    | extra other => exact .extra (other.imp_left And.right)
  block := Partners.unique monotone_blocks (fun s r h h' ne => (h.apart h' ne).1) (fun _ _ _ _ none => none.elim)
    fun _ _ _ none => none.elim
  scope := by
    refine Partners.unique monotone_scopes (fun s r h h' ne => (h.apart h' ne).1) (fun s x y h other => ?_) ?_
    · rcases other with ⟨rfl, -⟩ | ⟨k, rfl, -⟩ | ⟨-, ⟨f, member, rfl⟩, -⟩
      · have positive := start_pos s.1
        omega
      · have le := (W.stands s h.mem).1.within.2.1
        exact fun inside => absurd (Nat.lt_of_lt_of_le inside.2 le) (by simp [SymbolTable.extent])
      · exact (h.not_head member).2
    · have frame {f : Frame} (member : f ∈ W.cls :: W.extensions) :
          0 < f.scope.index ∧ f.scope.index < W.t.scopes.size := by
        obtain ⟨stands, -⟩ := W.frames f member
        exact ⟨Nat.pos_of_ne_zero fun zero => stands.inner (congrArg ScopeId.mk zero), stands.opened⟩
      have size : 0 < W.t.scopes.size := by
        have := frame (List.mem_cons_self ..)
        omega
      rintro x y z (⟨rfl, rfl⟩ | ⟨k, rfl, rfl⟩ | ⟨-, ⟨f, member, rfl⟩, rfl⟩)
        (⟨same, rfl⟩ | ⟨k', same, rfl⟩ | ⟨-, ⟨f', member', same⟩, rfl⟩) <;>
        first
          | rfl
          | omega
          | exact absurd (frame member) (by omega)
          | exact absurd (frame member') (by omega)

end Twins

end Deferral
