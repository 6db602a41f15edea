import Deferral.Proofs.Extension.Fragment
import Deferral.Proofs.Extension.TwinFirstPass

/-!
# Members written inside a class and in extensions of it

A unit has extensions of a class, and another one has what stands in them behind what stands in the class. Both
consist of the same fragments (`Twinned`), which the passes go through alike. Main statement: extending a class
comes to the same as to write the members inside it, for a unit with a class and extensions of it is resolved like
the unit in which the class has the members of all.
-/

namespace Deferral

variable {u u' : SourceUnit} {t t' : SymbolTable} {sites : List Site}

/-! ## One of the units -/

/-- Some fragments stand in a table outside all classes, and others in classes and extensions. -/
structure Spread (t : SymbolTable) (ps qs : List Inset) (fs : List Frame) : Prop where
  stands : ∀ p ∈ ps ++ qs, p.Stands t
  outer : ∀ p ∈ ps, p.base.innermost = .global
  inner : ∀ p ∈ qs, ∃ f ∈ fs, p.base.innermost = f.scope
  apart : (ps ++ qs).Pairwise fun p q => (Cell.part p).Apart (.part q)
  heads : ∀ p ∈ ps ++ qs, ∀ f ∈ fs, (Cell.part p).Apart (.head f.start)
  lone : fs.Pairwise fun f g => (Cell.head f.start).Apart (.head g.start)
  frames : ∀ f ∈ fs, f.Stands t

theorem SourceUnit.Comprises.spread (h : u.Comprises t sites) {fs : List Frame}
    (perm : (Site.frames sites).Perm fs) : Spread t (Site.texts sites) (fs.flatMap Frame.parts) fs := by
  have outside : ∀ p ∈ Site.texts sites, p.Stands t ∧ p.base.innermost = .global := fun p member =>
    h.stands _ (Site.mem_texts.mp member)
  have frames : ∀ f ∈ fs, f.Stands t := fun f member => h.stands _ (Site.mem_frames.mp (perm.mem_iff.mpr member))
  have inside : ∀ p ∈ fs.flatMap Frame.parts, ∃ f ∈ fs, p.Stands t ∧ p.base.innermost = f.scope := by
    intro p member
    obtain ⟨f, frame, part⟩ := List.mem_flatMap.mp member
    exact ⟨f, frame, (frames f frame).parts p part⟩
  have gathered : (Site.gathered sites).Perm
      ((Site.texts sites ++ fs.flatMap Frame.parts).map Cell.part ++ fs.map fun f => Cell.head f.start) :=
    List.Perm.append (((perm.flatMap_right _).append_left _).map _) (perm.map _)
  obtain ⟨parts, heads, across⟩ := List.pairwise_append.mp
    (gathered.pairwise (Site.apart_cells h.laid) Cell.Apart.symm)
  refine ⟨fun p member => ?_, fun p member => (outside p member).2, fun p member => ?_,
    List.pairwise_map.mp parts, fun p member f frame => ?_, List.pairwise_map.mp heads, frames⟩
  · rcases List.mem_append.mp member with member | member
    · exact (outside p member).1
    · obtain ⟨f, -, stands, -⟩ := inside p member
      exact stands
  · obtain ⟨f, frame, -, inner⟩ := inside p member
    exact ⟨f, frame, inner⟩
  · exact across _ (List.mem_map_of_mem member) _ (List.mem_map_of_mem frame)

/-- How many declarations a unit has. -/
theorem SourceUnit.Comprises.decls (h : u.Comprises t sites) {fs : List Frame} (perm : (Site.frames sites).Perm fs) :
    t.decls.size = Site.declared (Site.texts sites ++ fs.flatMap Frame.parts) + fs.length := by
  have whole := Site.decls_eq h.laid
  have same : Site.declared (Site.parts sites) = Site.declared (Site.texts sites ++ fs.flatMap Frame.parts) :=
    (((perm.flatMap_right _).append_left _).map _).sum_eq
  rw [same, perm.length_eq] at whole
  exact whole.trans (Nat.zero_add _)

theorem Site.declared_of_fragments {ps ps' : List Inset}
    (same : ps.map Inset.fragment = ps'.map Inset.fragment) : declared ps = declared ps' := by
  have through (qs : List Inset) :
      declared qs = ((qs.map Inset.fragment).map fun f : Fragment => f.table.decls.size).sum := by
    rw [List.map_map]
    rfl
  rw [through, through, same]

/-! ## Pairs of fragments -/

section

variable {ps ps' : List Inset} (same : ps.map Inset.fragment = ps'.map Inset.fragment)

include same

theorem length_of_fragments : ps.length = ps'.length := by
  have length := congrArg List.length same
  rwa [List.length_map, List.length_map] at length

theorem map_fst_zip : (ps.zip ps').map Prod.fst = ps :=
  List.map_fst_zip (Nat.le_of_eq (length_of_fragments same))

theorem map_snd_zip : (ps.zip ps').map Prod.snd = ps' :=
  List.map_snd_zip (Nat.le_of_eq (length_of_fragments same).symm)

theorem fragment_of_zip : ∀ s ∈ ps.zip ps', s.2.fragment = s.1.fragment := by
  induction ps generalizing ps' with
  | nil => intro s none; cases none
  | cons p ps ih =>
    cases ps' with
    | nil => intro s none; cases none
    | cons p' ps' =>
      obtain ⟨first, others⟩ := List.cons.inj same
      intro s member
      rcases List.mem_cons.mp member with rfl | member
      · exact first.symm
      · exact ih others s member

end

theorem Frame.ids_ne {f g : Frame} (apart : (Cell.head f.start).Apart (.head g.start)) : f.id ≠ g.id := by
  intro same
  have starts : f.start.decls = g.start.decls := congrArg DeclId.index same
  rcases apart with le | le
  · have : f.start.decls + 1 ≤ g.start.decls := le.1
    omega
  · have : g.start.decls + 1 ≤ f.start.decls := le.1
    omega

theorem filter_around {α : Type} {p : α → Bool} {x : α} {before behind : List α} (keeps : p x = true)
    (drops : ∀ y ∈ before ++ behind, p y = false) :
    (before ++ x :: behind).filter p = [x] ∧
      (before ++ x :: behind).filter (fun y => !p y) = before ++ behind := by
  obtain ⟨dropsBefore, dropsBehind⟩ := List.forall_mem_append.mp drops
  constructor
  · rw [List.filter_append, List.filter_cons_of_pos keeps,
      List.filter_eq_nil_iff.mpr fun y member => Bool.eq_false_iff.mp (dropsBefore y member),
      List.filter_eq_nil_iff.mpr fun y member => Bool.eq_false_iff.mp (dropsBehind y member)]
    rfl
  · rw [List.filter_append, List.filter_cons_of_neg (by simp [keeps]),
      List.filter_eq_self.mpr fun y member => by rw [dropsBefore y member]; rfl,
      List.filter_eq_self.mpr fun y member => by rw [dropsBehind y member]; rfl]

/-! ## Both units -/

/-- Units that have been read: one with the class `cls` and its `extensions`, and one with the class `cls'`
that has the same fragments as all of them together, and no extensions. -/
structure Twinned (u u' : SourceUnit) (t t' : SymbolTable) (sites sites' : List Site) (cls cls' : Frame)
    (first second : List Frame) : Prop where
  reached : ∃ us, Reached t (u :: us)
  reached' : ∃ us, Reached t' (u' :: us)
  isRead : ∃ rank, u.IsRead rank t
  isRead' : ∃ rank, u'.IsRead rank t'
  comprises : u.Comprises t sites
  comprises' : u'.Comprises t' sites'
  frames : Site.frames sites = first ++ cls :: second
  frames' : Site.frames sites' = [cls']
  named : ∀ f ∈ cls :: (first ++ second), f.name = cls.name
  named' : cls'.name = cls.name
  primary : cls.sort = .primary ∧ cls'.sort = .primary
  extending : ∀ f ∈ first ++ second, f.sort = .extension
  texts : (Site.texts sites).map Inset.fragment = (Site.texts sites').map Inset.fragment
  parts : ((cls :: (first ++ second)).flatMap Frame.parts).map Inset.fragment = cls'.parts.map Inset.fragment
  without : ∀ p ∈ Site.texts sites, p.fragment.find? cls.name = none
  unlike : cls'.parts.Pairwise fun p q => ∀ name, p.fragment.find? name = none ∨ q.fragment.find? name = none
  single : ∀ p ∈ cls'.parts, ∀ name set, p.fragment.find? name = some set → set.length ≤ 1

namespace Twinned

variable {sites' : List Site} {cls cls' : Frame} {first second : List Frame}
  (h : Twinned u u' t t' sites sites' cls cls' first second)

include h

theorem perm : (Site.frames sites).Perm (cls :: (first ++ second)) := by
  rw [h.frames]
  exact List.perm_middle

theorem perm' : (Site.frames sites').Perm [cls'] := by
  rw [h.frames']

theorem spread : Spread t (Site.texts sites) ((cls :: (first ++ second)).flatMap Frame.parts)
    (cls :: (first ++ second)) := h.comprises.spread h.perm

theorem spread' : Spread t' (Site.texts sites') cls'.parts [cls'] := by
  have spread := h.comprises'.spread h.perm'
  rwa [List.flatMap_cons, List.flatMap_nil, List.append_nil] at spread

theorem smaller : t'.decls.size ≤ t.decls.size := by
  have size := h.comprises.decls h.perm
  have size' := h.comprises'.decls h.perm'
  rw [List.flatMap_cons, List.flatMap_nil, List.append_nil] at size'
  have same : Site.declared (Site.texts sites ++ (cls :: (first ++ second)).flatMap Frame.parts) =
      Site.declared (Site.texts sites' ++ cls'.parts) := Site.declared_of_fragments (by
    rw [List.map_append, h.texts, h.parts, List.map_append])
  rw [size, size', same]
  exact Nat.add_le_add_left (Nat.succ_le_succ (Nat.zero_le _)) _

theorem without' : ∀ p ∈ Site.texts sites', p.fragment.find? cls.name = none := by
  have all : ∀ f ∈ (Site.texts sites).map Inset.fragment, f.find? cls.name = none :=
    List.forall_mem_map.mpr h.without
  rw [h.texts] at all
  exact List.forall_mem_map.mp all

/-- The class is told from its extensions by its number. -/
theorem sets : ∃ set, (t.scope .global).find? cls.name = some set ∧
    (t'.scope .global).find? cls.name = some [cls'.id] ∧
    set.filter (fun d => (first ++ second).all fun f => f.id ≠ d) = [cls.id] ∧
    set.filter (fun d => !(first ++ second).all fun f => f.id ≠ d) = (first ++ second).map Frame.id := by
  have named : ∀ f ∈ Site.frames sites, f.name = cls.name := fun f member => h.named f (h.perm.mem_iff.mp member)
  have named' : ∀ f ∈ Site.frames sites', f.name = cls.name := by
    rw [h.frames']
    exact List.forall_mem_singleton.mpr h.named'
  have none_of {ps : List Inset} (without : ∀ p ∈ ps, p.fragment.find? cls.name = none) :
      ∀ p ∈ ps, p.find? cls.name = none := fun p member => by
    unfold Inset.find?
    rw [without p member]
    rfl
  have found := (h.comprises.names cls.name).trans (Site.findAll_frames named (none_of h.without))
  have found' := (h.comprises'.names cls.name).trans (Site.findAll_frames named' (none_of h.without'))
  rw [h.frames, if_neg (by simp)] at found
  rw [h.frames', if_neg (by simp)] at found'
  have apart : ∀ f ∈ first ++ second, f.id ≠ cls.id := fun f member =>
    (Frame.ids_ne ((List.pairwise_cons.mp h.spread.lone).1 f member)).symm
  have keeps : ((first ++ second).all fun f => f.id ≠ cls.id) = true := by
    rw [List.all_eq_true]
    exact fun f member => decide_eq_true (apart f member)
  have drops : ∀ d ∈ (first ++ second).map Frame.id, ((first ++ second).all fun f => f.id ≠ d) = false := by
    refine List.forall_mem_map.mpr fun f member => ?_
    rw [List.all_eq_false]
    exact ⟨f, member, by simp⟩
  rw [List.map_append] at drops
  rw [List.map_append, List.map_cons] at found
  rw [List.map_append]
  exact ⟨_, found, found', filter_around (p := fun d => (first ++ second).all fun f => f.id ≠ d) keeps drops⟩

theorem names (name : String) (ne : name ≠ cls.name) :
    (t.scope .global).find? name = Inset.findAll (Site.texts sites) name ∧
      (t'.scope .global).find? name = Inset.findAll (Site.texts sites') name := by
  constructor
  · refine (h.comprises.names name).trans (Site.findAll_of_ne fun f member => ?_)
    rw [h.named f (h.perm.mem_iff.mp member)]
    exact Ne.symm ne
  · refine (h.comprises'.names name).trans (Site.findAll_of_ne ?_)
    rw [h.frames']
    exact List.forall_mem_singleton.mpr (h.named'.trans_ne (Ne.symm ne))

theorem map_fst : (((Site.texts sites).zip (Site.texts sites')) ++
    ((cls :: (first ++ second)).flatMap Frame.parts).zip cls'.parts).map Prod.fst =
      Site.texts sites ++ (cls :: (first ++ second)).flatMap Frame.parts := by
  rw [List.map_append, map_fst_zip h.texts, map_fst_zip h.parts]

theorem map_snd : (((Site.texts sites).zip (Site.texts sites')) ++
    ((cls :: (first ++ second)).flatMap Frame.parts).zip cls'.parts).map Prod.snd =
      Site.texts sites' ++ cls'.parts := by
  rw [List.map_append, map_snd_zip h.texts, map_snd_zip h.parts]

omit h in
theorem of_map {α β : Type} {P : β → Prop} {f : α → β} {xs : List α} {ys : List β} (same : xs.map f = ys)
    (all : ∀ y ∈ ys, P y) : ∀ x ∈ xs, P (f x) :=
  fun _ member => all _ (same ▸ List.mem_map_of_mem member)

/-- The pairs of fragments in both units. -/
def twins : Twins where
  t := t
  t' := t'
  outside := (Site.texts sites).zip (Site.texts sites')
  inside := ((cls :: (first ++ second)).flatMap Frame.parts).zip cls'.parts
  cls
  cls'
  extensions := first ++ second
  reached := h.reached.imp' (u :: ·) fun _ reached => reached
  reached' := h.reached'.imp' (u' :: ·) fun _ reached => reached
  smaller := h.smaller
  built := h.isRead.imp fun _ read => read.built
  built' := h.isRead'.imp fun _ read => read.built
  idle := ⟨h.isRead.elim fun _ read => read.active, h.isRead'.elim fun _ read => read.active⟩
  constants := ⟨h.comprises.constants, h.comprises'.constants⟩
  binding := ⟨h.comprises.binding, h.comprises'.binding⟩
  outermost := ⟨h.isRead.elim fun _ read => read.outermost, h.isRead'.elim fun _ read => read.outermost⟩
  same s member := by
    rcases List.mem_append.mp member with member | member
    · exact fragment_of_zip h.texts s member
    · exact fragment_of_zip h.parts s member
  stands s member := ⟨of_map h.map_fst h.spread.stands s member, of_map h.map_snd h.spread'.stands s member⟩
  outer s member := ⟨of_map (map_fst_zip h.texts) h.spread.outer s member,
    of_map (map_snd_zip h.texts) h.spread'.outer s member⟩
  inner s member := by
    refine ⟨of_map (map_fst_zip h.parts) h.spread.inner s member, ?_⟩
    obtain ⟨f, frame, inner⟩ := of_map (map_snd_zip h.parts) h.spread'.inner s member
    exact List.mem_singleton.mp frame ▸ inner
  apart := by
    have apart := h.spread.apart
    have apart' := h.spread'.apart
    rw [← h.map_fst, List.pairwise_map] at apart
    rw [← h.map_snd, List.pairwise_map] at apart'
    exact apart.and apart'
  heads s member := ⟨of_map h.map_fst h.spread.heads s member,
    of_map h.map_snd h.spread'.heads s member cls' (List.mem_singleton_self _)⟩
  lone := h.spread.lone
  frames f member := ⟨h.spread.frames f member, h.named f member⟩
  frame' := h.spread'.frames cls' (List.mem_singleton_self _)
  name' := h.named'
  primary := h.primary
  extending := h.extending
  sets := h.sets
  names name ne := by
    rw [map_fst_zip h.texts, map_snd_zip h.texts]
    exact h.names name ne
  parts := (map_fst_zip h.parts).symm
  parts' := (map_snd_zip h.parts).symm
  unlike := by
    have unlike := h.unlike
    rw [← map_snd_zip h.parts, List.pairwise_map] at unlike
    refine unlike.imp_of_mem fun {s r} member member' unlike => ?_
    rw [← fragment_of_zip h.parts s member, ← fragment_of_zip h.parts r member']
    exact unlike
  single s member := by
    rw [← fragment_of_zip h.parts s member]
    exact of_map (map_snd_zip h.parts) h.single s member

/-! ## The statements go along -/

omit h in
theorem along_append {W : Twins} {body body' rest rest' : List Stmt} {ahead : Prop}
    (same : Stmt.AllMatch (W.pairing False False).left Pairing.right body body')
    (along : W.Along ahead rest rest') : W.Along ahead (body ++ rest) (body' ++ rest') := by
  replace same := Stmt.AllMatch.iff_forall₂.mp same
  induction same with
  | nil => exact along
  | cons first _ ih => exact .other first ih

omit h in
/-- What stands at some sites goes along with the fragments among them. -/
theorem along_sites {W : Twins} {rest rest' : List Stmt} {ahead : Prop} (along : W.Along ahead rest rest') :
    ∀ {sites : List Site} {ps' : List Inset},
      (Site.texts sites).map Inset.fragment = ps'.map Inset.fragment →
      (∀ s ∈ (Site.texts sites).zip ps', Stmt.AllMatch (W.pairing False False).left Pairing.right s.1.body s.2.body) →
      (∀ f ∈ Site.frames sites, f ∈ W.extensions) →
      W.Along ahead (sites.flatMap Site.body ++ rest) (ps'.flatMap Inset.body ++ rest')
  | [], [], _, _, _ => along
  | .text p :: sites, p' :: ps', same, bodies, frames => by
    rw [List.flatMap_cons, List.flatMap_cons, List.append_assoc, List.append_assoc]
    exact along_append (bodies (p, p') (List.mem_cons_self ..))
      (along_sites along (List.cons.inj same).2 (fun s member => bodies s (List.mem_cons_of_mem _ member)) frames)
  | .braced f :: sites, ps', same, bodies, frames => by
    rw [List.flatMap_cons, List.append_assoc]
    exact .extension (frames f (List.mem_cons_self ..))
      (along_sites along same bodies fun g member => frames g (List.mem_cons_of_mem _ member))

omit h in
theorem flatMap_body : ∀ {sites : List Site}, Site.frames sites = [] →
    sites.flatMap Site.body = (Site.texts sites).flatMap Inset.body
  | [], _ => rfl
  | .text p :: sites, lone => by
    have rest : Site.frames sites = [] := lone
    rw [List.flatMap_cons, flatMap_body rest]
    rfl

/-- A fragment outside consists of the same in both units. -/
theorem allMatch_outside (s : Inset × Inset) (member : s ∈ (Site.texts sites).zip (Site.texts sites')) :
    Stmt.AllMatch (h.twins.pairing False False).left Pairing.right s.1.body s.2.body := by
  have covers : (h.twins.pairing False False).Covers s := Twins.Slot.covers (.inl member)
  have same := s.2.same
  rw [covers.same] at same
  have inside {u : SourceUnit} {t : SymbolTable} {sites : List Site} (comprises : u.Comprises t sites) {p : Inset}
      (text : p ∈ Site.texts sites) {e : Expr} (there : e ∈ Stmt.expressionsIn p.body) :
      e ∈ Stmt.expressionsIn u.body := by
    obtain ⟨stmt, holds, states⟩ := Stmt.mem_expressionsIn.mp there
    rw [comprises.body]
    exact Stmt.mem_expressionsIn.mpr ⟨stmt, List.mem_flatMap.mpr ⟨_, Site.mem_texts.mp text, holds⟩, states⟩
  obtain ⟨us, reached⟩ := h.reached
  obtain ⟨us', reached'⟩ := h.reached'
  refine ⟨covers.same_of_sames (h.twins.exact_pairing False False) s.1.same same, fun e there => ?_,
    fun e there => ?_⟩
  · exact reached.tame.units u (List.mem_cons_self ..) e
      (inside h.comprises (of_map (P := (· ∈ Site.texts sites)) (map_fst_zip h.texts) (fun _ member => member) s member) there)
  · exact reached'.tame.units u' (List.mem_cons_self ..) e
      (inside h.comprises' (of_map (P := (· ∈ Site.texts sites')) (map_snd_zip h.texts) (fun _ member => member) s member) there)

/-- The statements of both units go along. -/
theorem along {before behind before' behind' : List Site} (split : sites = before ++ .braced cls :: behind)
    (split' : sites' = before' ++ .braced cls' :: behind') (apart : Site.frames before' = [])
    (apart' : Site.frames behind' = []) (extending : Site.frames before = first ∧ Site.frames behind = second)
    (same : (Site.texts before).map Inset.fragment = (Site.texts before').map Inset.fragment)
    (same' : (Site.texts behind).map Inset.fragment = (Site.texts behind').map Inset.fragment) :
    h.twins.Along True u.body u'.body := by
  have pairs : (Site.texts sites).zip (Site.texts sites') =
      (Site.texts before).zip (Site.texts before') ++ (Site.texts behind).zip (Site.texts behind') := by
    rw [split, split', Site.texts_append, Site.texts_append, Site.texts_braced, Site.texts_braced,
      List.zip_append (length_of_fragments same)]
  have bodies := h.allMatch_outside
  rw [pairs] at bodies
  obtain ⟨bodies, bodies'⟩ := List.forall_mem_append.mp bodies
  have rest : h.twins.Along True (Site.body (.braced cls) ++ behind.flatMap Site.body)
      (Site.body (.braced cls') ++ behind'.flatMap Site.body) := by
    refine .cls ?_
    have along := along_sites (W := h.twins) .nil same' bodies' fun f member =>
      List.mem_append_right _ (extending.2 ▸ member)
    rwa [List.append_nil, List.append_nil, ← flatMap_body apart'] at along
  have along := along_sites rest same bodies fun f member => List.mem_append_left _ (extending.1 ▸ member)
  have body : u.body =
      before.flatMap Site.body ++ (Site.body (.braced cls) ++ behind.flatMap Site.body) := by
    rw [h.comprises.body, split, List.flatMap_append, List.flatMap_cons]
  have body' : u'.body = (Site.texts before').flatMap Inset.body ++
      (Site.body (.braced cls') ++ behind'.flatMap Site.body) := by
    rw [h.comprises'.body, split', List.flatMap_append, List.flatMap_cons, flatMap_body apart]
  rw [body, body']
  exact along

end Twinned

/-! ## The same up to numbers -/

/-- Two tables hold the same up to the numbers of declarations, scopes and blocks, and up to places. `gone` is
what only the first table holds, and `merged` are scopes of the first that the second has as one. -/
structure SymbolTable.Alike (gone : DeclId → Prop) (merged : ScopeId → Prop) (L R : Labels) (t t' : SymbolTable) :
    Prop where
  distinct : Function.Injective L.decl
  distinct' : Function.Injective R.decl
  distinctScopes : ∀ {s r : ScopeId} {s' : ScopeId}, L.scope s = R.scope s' → L.scope r = L.scope s →
    r = s ∨ merged r ∧ merged s
  distinctScopes' : Function.Injective R.scope
  distinctBlocks : ∀ {b c b' : Nat}, L.block b = R.block b' → L.block c = L.block b → c = b
  distinctBlocks' : Function.Injective R.block
  partner : ∀ x : DeclId, x.index < t.decls.size → gone x ∨ ∃ x' : DeclId, x'.index < t'.decls.size ∧
    L.decl x = R.decl x'
  partner' : ∀ x' : DeclId, x'.index < t'.decls.size → ∃ x : DeclId, x.index < t.decls.size ∧
    L.decl x = R.decl x'
  decl : ∀ {x x' : DeclId}, L.decl x = R.decl x' → (t.decl x).labelled L = (t'.decl x').labelled R
  members : ∀ {x x' : DeclId}, L.decl x = R.decl x' →
    Stmt.allLabelled L (t.members x) = Stmt.allLabelled R (t'.members x')
  constant : ∀ {x x' : DeclId}, L.decl x = R.decl x' → t'.constant? x' = t.constant? x
  global : L.scope .global = R.scope .global

/-- An extension of a class `name` at the outermost level. -/
def SymbolTable.IsExtensionOf (t : SymbolTable) (name : String) (x : DeclId) : Prop :=
  (t.decl x).isExtension = true ∧ (t.decl x).name = name ∧ (t.decl x).scope = .global

/-- The scope of something with a name, which stands at the outermost level. -/
def SymbolTable.Opens (t : SymbolTable) (name : String) (s : ScopeId) : Prop :=
  ∃ x, (t.decl x).name = name ∧ (t.decl x).scope = .global ∧ t.scopeOf? (.decl x) = some s

/-! ## Every declaration has a partner -/

theorem Cell.Laid.exists_cell : ∀ {cells : List Cell} {lo hi : Extent}, Cell.Laid lo cells hi → ∀ {n : Nat},
    lo.decls ≤ n → n < hi.decls → ∃ c ∈ cells, c.start.decls ≤ n ∧ n < c.stop.decls
  | [], lo, hi, laid, n, le, lt => by
    have same : lo = hi := laid
    subst same
    exact absurd lt (Nat.not_lt.mpr le)
  | c :: rest, lo, hi, laid, n, le, lt => by
    by_cases inside : n < c.stop.decls
    · exact ⟨c, List.mem_cons_self .., laid.1 ▸ le, inside⟩
    · obtain ⟨d, member, within⟩ := laid.2.exists_cell (Nat.le_of_not_lt inside) lt
      exact ⟨d, List.mem_cons_of_mem _ member, within⟩

/-- A declaration of a unit that has been read is in a fragment, or it is a class or an extension. -/
theorem SourceUnit.Comprises.exists_part {u : SourceUnit} {t : SymbolTable} {sites : List Site}
    (h : u.Comprises t sites) {fs : List Frame} (perm : (Site.frames sites).Perm fs) {x : DeclId}
    (lt : x.index < t.decls.size) :
    (∃ p ∈ Site.texts sites ++ fs.flatMap Frame.parts, p.start.decls ≤ x.index ∧ x.index < p.stop.decls) ∨
      ∃ f ∈ fs, x = f.id := by
  obtain ⟨c, member, within⟩ := h.laid.exists_cell (n := x.index) (Nat.zero_le _) lt
  have gathered : c ∈ Site.gathered sites := (Site.cells_perm sites).mem_iff.mp member
  rcases List.mem_append.mp gathered with part | head
  · obtain ⟨p, there, rfl⟩ := List.mem_map.mp part
    exact .inl ⟨p, ((perm.flatMap_right _).append_left _).mem_iff.mp there, within⟩
  · obtain ⟨f, there, rfl⟩ := List.mem_map.mp head
    refine .inr ⟨f, perm.mem_iff.mp there, congrArg DeclId.mk ?_⟩
    exact Nat.le_antisymm (Nat.lt_succ_iff.mp within.2) within.1

namespace Twinned

variable {u u' : SourceUnit} {t t' : SymbolTable} {sites sites' : List Site} {cls cls' : Frame}
  {first second : List Frame} (h : Twinned u u' t t' sites sites' cls cls' first second)

include h

/-- The labels of both units once they have been resolved. -/
theorem exists_partner {x : DeclId} (lt : x.index < t.decls.size) :
    t.IsExtensionOf cls.name x ∨ ∃ x' : DeclId, x'.index < t'.decls.size ∧
      (h.twins.pairing True True).left.decl x = Pairing.right.decl x' := by
  have exact' := h.twins.exact_pairing True True
  rcases h.comprises.exists_part h.perm lt with ⟨p, member, le, within⟩ | ⟨f, member, rfl⟩
  · rw [← h.map_fst] at member
    obtain ⟨s, pair, rfl⟩ := List.mem_map.mp member
    have slot : h.twins.Slot True s := (List.mem_append.mp pair).imp_right fun inside => ⟨trivial, inside⟩
    obtain ⟨n, index⟩ := Nat.exists_eq_add_of_le le
    rw [index] at within
    refine .inr ⟨⟨s.2.start.decls + n⟩, ?_, exact'.decl_iff.mpr ?_⟩
    · refine Nat.lt_of_lt_of_le ?_ (h.twins.stands s pair).2.within.1
      rw [slot.stop_eq]
      exact Nat.add_lt_add_left (Nat.lt_of_add_lt_add_left within) _
    · rw [index]
      exact .slot slot within
  · rcases List.mem_cons.mp member with rfl | extension
    · exact .inr ⟨cls'.id, h.twins.cls_lt', exact'.decl_iff.mpr (.extra (.inl ⟨rfl, rfl⟩))⟩
    · refine .inl ?_
      have decl := (h.spread.frames f member).decl
      have sort := h.extending f extension
      have name := h.named f member
      unfold SymbolTable.IsExtensionOf
      rw [decl, sort, name]
      exact ⟨rfl, rfl, rfl⟩

theorem exists_partner' {x' : DeclId} (lt : x'.index < t'.decls.size) :
    ∃ x : DeclId, x.index < t.decls.size ∧
      (h.twins.pairing True True).left.decl x = Pairing.right.decl x' := by
  have exact' := h.twins.exact_pairing True True
  rcases h.comprises'.exists_part h.perm' lt with
    ⟨p, member, le, within⟩ | ⟨f, member, rfl⟩
  · rw [List.flatMap_cons, List.flatMap_nil, List.append_nil, ← h.map_snd] at member
    obtain ⟨s, pair, rfl⟩ := List.mem_map.mp member
    have slot : h.twins.Slot True s := (List.mem_append.mp pair).imp_right fun inside => ⟨trivial, inside⟩
    obtain ⟨n, index⟩ := Nat.exists_eq_add_of_le le
    rw [index, slot.stop_eq] at within
    have inside : s.1.start.decls + n < s.1.stop.decls :=
      Nat.add_lt_add_left (Nat.lt_of_add_lt_add_left within) _
    refine ⟨⟨s.1.start.decls + n⟩, ?_, exact'.decl_iff.mpr ?_⟩
    · exact Nat.lt_of_lt_of_le inside (h.twins.stands s pair).1.within.1
    · rw [index]
      exact .slot slot inside
  · obtain rfl := List.mem_singleton.mp member
    exact ⟨cls.id, h.twins.cls_lt, exact'.decl_iff.mpr (.extra (.inl ⟨rfl, rfl⟩))⟩

theorem opens {s : ScopeId} (among : ∃ f ∈ cls :: (first ++ second), s = f.scope) : t.Opens cls.name s := by
  obtain ⟨f, member, rfl⟩ := among
  have stands := h.spread.frames f member
  refine ⟨f.id, ?_, ?_, stands.owns⟩
  · rw [stands.decl]
    exact h.named f member
  · rw [stands.decl]

/-- Only the scopes of the class and its extensions have the same partner. -/
theorem scopes_eq {s r s' : ScopeId}
    (paired : (h.twins.pairing True True).left.scope s = Pairing.right.scope s')
    (same : (h.twins.pairing True True).left.scope r = (h.twins.pairing True True).left.scope s) :
    r = s ∨ t.Opens cls.name r ∧ t.Opens cls.name s := by
  by_cases here : s' = h.twins.cls'.scope
  · have opens (a : ScopeId) (paired : (h.twins.pairing True True).left.scope a = Pairing.right.scope s') :
        t.Opens cls.name a := by
      have frame := h.twins.frame'
      rcases Twins.twin_of_scope paired with twin | ⟨-, rfl⟩ | ⟨k, -, late⟩ | ⟨-, among, -⟩
      · exact absurd here twin.ne
      · exact absurd here.symm frame.inner
      · have lt := frame.opened
        rw [← here, late] at lt
        exact absurd lt (by omega)
      · exact h.opens among
    exact .inr ⟨opens r (same.trans paired), opens s paired⟩
  · exact .inl (Twins.plain_of_paired paired here r same)

theorem blocks_eq {b c b' : Nat} (paired : (h.twins.pairing True True).left.block b = Pairing.right.block b')
    (same : (h.twins.pairing True True).left.block c = (h.twins.pairing True True).left.block b) : c = b := by
  have exact' := h.twins.exact_pairing True True
  refine Partners.single Twins.monotone_blocks (fun s n slot lt => ?_) (fun s r slot slot' ne => (slot.apart slot' ne).2)
    (fun _ _ _ _ none => none.elim) (fun _ _ _ none => none.elim) _ _ _
    (exact'.block_iff.mp (same.trans paired)) (exact'.block_iff.mp paired)
  rw [slot.stop_eq]
  exact Nat.add_lt_add_left (Nat.lt_of_add_lt_add_left lt) _

/-- Both units are resolved alike. -/
theorem exists_resolves {r : SourceUnit} {reports : List Diagnostic} {z : SymbolTable}
    (run : u.resolve.run t = ((r, reports), z))
    {before behind before' behind' : List Site} (split : sites = before ++ .braced cls :: behind)
    (split' : sites' = before' ++ .braced cls' :: behind') (apart : Site.frames before' = [])
    (apart' : Site.frames behind' = []) (extending : Site.frames before = first ∧ Site.frames behind = second)
    (same : (Site.texts before).map Inset.fragment = (Site.texts before').map Inset.fragment)
    (same' : (Site.texts behind).map Inset.fragment = (Site.texts behind').map Inset.fragment) :
    ∃ (r' : SourceUnit) (reports' : List Diagnostic) (z' : SymbolTable) (L R : Labels),
      u'.resolve.run t' = ((r', reports'), z') ∧ Reporting.SameReports reports reports' ∧
      Stmt.allLabelled L r.body = Stmt.allLabelled R r'.body ∧
      SymbolTable.Alike (t.IsExtensionOf cls.name) (t.Opens cls.name) L R z z' := by
  obtain ⟨rank, isRead⟩ := h.isRead
  obtain ⟨rank', isRead'⟩ := h.isRead'
  have along := h.along split split' apart apart' extending same same'
  obtain ⟨r', reports', z', b, b', since, n, run', reported, body, joins⟩ :=
    h.twins.tracks_resolve isRead.global isRead'.global along run
  have exact' := h.twins.exact_pairing True True
  refine ⟨r', reports', z', (h.twins.pairing True True).left, Pairing.right, run', reported, body.same, ?_⟩
  obtain ⟨k, size, size'⟩ := joins.decls
  obtain ⟨j, earlier, earlier'⟩ := since.decls
  replace size : z.decls.size = t.decls.size + (j + k) := by
    rw [← Nat.add_assoc]
    exact size.trans (congrArg (· + k) earlier)
  replace size' : z'.decls.size = t'.decls.size + (j + k) := by
    rw [← Nat.add_assoc]
    exact size'.trans (congrArg (· + k) earlier')
  -- What the first pass has made belongs together in order.
  have late (i : Nat) : (h.twins.pairing True True).left.decl ⟨t.decls.size + i⟩ =
      Pairing.right.decl ⟨t'.decls.size + i⟩ := exact'.decl_iff.mpr (.extra (.inr ⟨i, rfl, rfl⟩))
  refine ⟨exact'.injective_left, Pairing.injective_right, h.scopes_eq, Pairing.injective_scope, h.blocks_eq,
    fun b c same => by simpa [Pairing.right] using same, fun x lt => ?_, fun x' lt => ?_,
    fun paired => (joins.decl paired).same, fun paired => (joins.members ?_).same, joins.constant,
    (Twins.after since).global⟩
  · by_cases old : x.index < t.decls.size
    · refine (h.exists_partner old).imp_right fun partner => ?_
      obtain ⟨x', lt', paired⟩ := partner
      exact ⟨x', by omega, paired⟩
    · obtain ⟨i, index⟩ := Nat.exists_eq_add_of_le (Nat.le_of_not_lt old)
      exact .inr ⟨⟨t'.decls.size + i⟩, by show _ + _ < _; omega, (congrArg _ (congrArg DeclId.mk index)).trans (late i)⟩
  · by_cases old : x'.index < t'.decls.size
    · obtain ⟨x, lt', paired⟩ := h.exists_partner' old
      exact ⟨x, by omega, paired⟩
    · obtain ⟨i, index⟩ := Nat.exists_eq_add_of_le (Nat.le_of_not_lt old)
      exact ⟨⟨t.decls.size + i⟩, by show _ + _ < _; omega, (late i).trans (congrArg _ (congrArg DeclId.mk index.symm))⟩
  · refine exact'.held_iff.mpr ((exact'.decl_iff.mp paired).imp fun meant => ?_)
    exact meant.imp_left fun same => ⟨trivial, same⟩

end Twinned

/-! ## Two sources -/

/-- What stands beside a class: a text, or an extension of the class with a text between its braces. -/
inductive Neighbour where
  | text (f : Fragment)
  | extension (f : Fragment)

namespace Neighbour

def text? : Neighbour → Option Fragment
  | text f => some f
  | extension _ => none

def added? : Neighbour → Option Fragment
  | text _ => none
  | extension f => some f

/-- A piece beside the class `name`. -/
def item (name : String) : Neighbour → Item
  | text f => .text f
  | extension f => .braced .extension name [f]

def texts (pieces : List Neighbour) : List Fragment := pieces.filterMap text?

def added (pieces : List Neighbour) : List Fragment := pieces.filterMap added?

/-- A class with the text `inner`, and the pieces around it. -/
def apart (name : String) (before : List Neighbour) (inner : Fragment) (behind : List Neighbour) : List Item :=
  before.map (item name) ++ .braced .primary name [inner] :: behind.map (item name)

/-- The class with the texts of its extensions behind its own, in their order. -/
def together (name : String) (before : List Neighbour) (inner : Fragment) (behind : List Neighbour) : List Item :=
  (texts before).map .text ++
    .braced .primary name (inner :: (added before ++ added behind)) :: (texts behind).map .text

theorem sites_of_items {name : String} : ∀ {pieces : List Neighbour} {sites : List Site},
    sites.map Site.item = pieces.map (item name) →
      (Site.texts sites).map Inset.fragment = texts pieces ∧
      ((Site.frames sites).flatMap Frame.parts).map Inset.fragment = added pieces ∧
      ∀ f ∈ Site.frames sites, f.sort = .extension ∧ f.name = name
  | [], [], _ => ⟨rfl, rfl, by simp⟩
  | text g :: pieces, .text p :: sites, same => by
    obtain ⟨first, others⟩ := List.cons.inj same
    obtain ⟨same, parts, frames⟩ := sites_of_items others
    exact ⟨congrArg₂ List.cons (Item.text.inj first) same, parts, frames⟩
  | extension g :: pieces, .braced f :: sites, same => by
    obtain ⟨first, others⟩ := List.cons.inj same
    obtain ⟨same, parts, frames⟩ := sites_of_items others
    obtain ⟨sort, named, inner⟩ := Item.braced.inj first
    refine ⟨same, ?_, List.forall_mem_cons.mpr ⟨⟨sort, named⟩, frames⟩⟩
    rw [Site.frames_braced, List.flatMap_cons, List.map_append, inner, parts]
    rfl
  | text _ :: _, .braced _ :: _, same => by cases (List.cons.inj same).1
  | extension _ :: _, .text _ :: _, same => by cases (List.cons.inj same).1

theorem sites_of_texts : ∀ {fs : List Fragment} {sites : List Site}, sites.map Site.item = fs.map .text →
    (Site.texts sites).map Inset.fragment = fs ∧ Site.frames sites = []
  | [], [], _ => ⟨rfl, rfl⟩
  | g :: fs, .text p :: sites, same => by
    obtain ⟨first, others⟩ := List.cons.inj same
    obtain ⟨same, frames⟩ := sites_of_texts others
    exact ⟨congrArg₂ List.cons (Item.text.inj first) same, frames⟩
  | _ :: _, .braced _ :: _, same => by cases (List.cons.inj same).1

/-- What may stand around a class and in it: around it stand declarations, none of which has the name of the
class, and what is declared in the class and its extensions has different names. -/
structure Fitting (name : String) (before : List Neighbour) (inner : Fragment) (behind : List Neighbour) : Prop where
  declares : ∀ f ∈ texts before ++ texts behind, ∀ s ∈ f.unit.body, s.declaration?.isSome
  without : ∀ f ∈ texts before ++ texts behind, f.find? name = none
  unlike : (inner :: (added before ++ added behind)).Pairwise fun f g =>
    ∀ name, f.find? name = none ∨ g.find? name = none
  single : ∀ f ∈ inner :: (added before ++ added behind), ∀ name set, f.find? name = some set → set.length ≤ 1

/-- Both units are read and resolved: the same is reported in the same order, wherever that may be, and the same is
left up to numbers and places, apart from the extensions of the class `name` in the first unit. -/
def ResolveAlike (name : String) (tokens tokens' : List Token) : Prop :=
  ∃ (u u' r r' : SourceUnit) (t t' z z' : SymbolTable) (reports reports' : List Diagnostic) (L R : Labels),
    (SourceUnit.read tokens).run.run .empty = (.ok u, t) ∧
    (SourceUnit.read tokens').run.run .empty = (.ok u', t') ∧
    u.resolve.run t = ((r, reports), z) ∧ u'.resolve.run t' = ((r', reports'), z') ∧
    reports'.map (fun d => (d.cause, d.subject)) = reports.map (fun d => (d.cause, d.subject)) ∧
    Stmt.allLabelled L r.body = Stmt.allLabelled R r'.body ∧
    SymbolTable.Alike (t.IsExtensionOf name) (t.Opens name) L R z z'

/-- The tokens of a text, wherever they stand. -/
def words (source : String) : List Token :=
  (Token.beforeEnd ((Token.scan source.toList "words").toOption.getD [])).map Token.unplaced

/-- What a text that forms a unit declares outside its blocks, and whether it does nothing else. -/
def declared? (source : String) : Option (Names × Bool) :=
  (Token.scan source.toList "words").toOption.bind fun tokens =>
    SourceUnit.seen? tokens .empty fun u t =>
      ((t.scope .global).names, u.body.all fun s => s.declaration?.isSome)

theorem exists_scan (source : String) (accepted : (Token.scan source.toList "words").toOption.isSome) :
    ∃ tokens, Token.scan source.toList "words" = .ok tokens ∧
      (Token.beforeEnd tokens).map Token.unplaced = words source := by
  cases scanned : Token.scan source.toList "words" with
  | ok tokens => exact ⟨tokens, rfl, by rw [words, scanned]; rfl⟩
  | error d => simp [scanned, Except.toOption] at accepted

theorem exists_fragment {source : String} {names : Names} {declares : Bool}
    (found : declared? source = some (names, declares)) :
    ∃ f : Fragment, f.spelled = words source ∧ (∀ name, f.find? name = names.find? name) ∧
      (declares = true → ∀ s ∈ f.unit.body, s.declaration?.isSome) := by
  obtain ⟨tokens, accepted, seen⟩ := Option.bind_eq_some_iff.mp found
  have scanned := toOption_eq_some_iff.mp accepted
  obtain ⟨u, t, read, same⟩ := SourceUnit.exists_of_seen? seen
  obtain ⟨rfl, rfl⟩ := Prod.mk.inj same
  refine ⟨⟨tokens, u, t, ⟨_, _, scanned⟩, read⟩, ?_, fun name => rfl, fun all => List.all_eq_true.mp all⟩
  rw [Fragment.spelled, words, scanned]
  rfl

end Neighbour

end Deferral
