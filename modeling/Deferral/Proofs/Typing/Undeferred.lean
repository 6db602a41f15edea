import Deferral.Proofs.SecondPass.Resolved

/-!
# Nothing stays deferred

Wherever types and expressions contain each other, an excerpt could be left inside that nobody reads
any more. In a source without faults none is left: not in the unit, and not in any declaration that
can be reached from it.
-/

namespace Deferral

/-! ## Excerpts that are left -/

mutual

/-- The excerpts left in a type, at any depth. -/
def Ty.deferrals : Ty → List Excerpt
  | .deferred f => [f]
  | .decltype e => e.deferrals
  | .function parameters result => Ty.deferralsIn parameters ++ result.deferrals
  | .reference t | .qualified t _ | .pointer t | .array t _ | .sequence t => t.deferrals
  | .void | .bool | .integer _ _ | .float _ | .auto | .decltypeAuto | .named _ _ _
  | .metatype => []

def Ty.deferralsIn : List Ty → List Excerpt
  | [] => []
  | t :: rest => t.deferrals ++ Ty.deferralsIn rest

def Node.deferrals : Node → List Excerpt
  | .deferred f => [f]
  | .boolean _ | .integer _ | .float _ | .name _ _ => []
  | .unary _ e | .converted _ e => e.deferrals
  | .binary _ l r | .assign l r => l.deferrals ++ r.deferrals
  | .call callee arguments => callee.deferrals ++ Expr.deferralsIn arguments

/-- The excerpts left in an expression, at any depth, and in the types of its nodes. -/
def Expr.deferrals : Expr → List Excerpt
  | ⟨node, type, _⟩ => node.deferrals ++ type.deferrals

def Expr.deferralsIn : List Expr → List Excerpt
  | [] => []
  | e :: rest => e.deferrals ++ Expr.deferralsIn rest

end

mutual

/-- What is in normal form has been read to the end. -/
theorem Ty.Normal.deferrals_eq_nil : ∀ {t : Ty}, t.Normal → t.deferrals = []
  | .void, _ | .bool, _ | .auto, _ | .decltypeAuto, _ | .metatype, _ => rfl
  | .integer _ _, _ | .float _, _ | .named _ _ _, _ => rfl
  | .decltype _, h => h.1.deferrals_eq_nil
  | .function _ _, h =>
    List.append_eq_nil_iff.mpr ⟨Ty.NormalAll.deferralsIn_eq_nil h.1, h.2.deferrals_eq_nil⟩
  | .reference _, h => h.1.deferrals_eq_nil
  | .qualified _ _, h => h.1.deferrals_eq_nil
  | .pointer t, h | .array t _, h | .sequence t, h => Ty.Normal.deferrals_eq_nil (t := t) h
  | .deferred _, h => h.elim

theorem Ty.NormalAll.deferralsIn_eq_nil : ∀ {ts : List Ty}, Ty.NormalAll ts → Ty.deferralsIn ts = []
  | [], _ => rfl
  | _ :: _, h =>
    List.append_eq_nil_iff.mpr ⟨h.1.deferrals_eq_nil, Ty.NormalAll.deferralsIn_eq_nil h.2⟩

theorem Node.Normal.deferrals_eq_nil : ∀ {n : Node}, n.Normal → n.deferrals = []
  | .deferred _, h => h.elim
  | .boolean _, _ | .integer _, _ | .float _, _ | .name _ _, _ => rfl
  | .unary _ e, h | .converted _ e, h => Expr.Normal.deferrals_eq_nil (e := e) h
  | .binary _ _ _, h | .assign _ _, h =>
    List.append_eq_nil_iff.mpr ⟨h.1.deferrals_eq_nil, h.2.deferrals_eq_nil⟩
  | .call _ _, h =>
    List.append_eq_nil_iff.mpr ⟨h.1.deferrals_eq_nil, Expr.NormalAll.deferralsIn_eq_nil h.2⟩

theorem Expr.Normal.deferrals_eq_nil : ∀ {e : Expr}, e.Normal → e.deferrals = []
  | ⟨_, _, _⟩, h => List.append_eq_nil_iff.mpr ⟨h.1.deferrals_eq_nil, h.2.deferrals_eq_nil⟩

theorem Expr.NormalAll.deferralsIn_eq_nil : ∀ {es : List Expr}, Expr.NormalAll es →
    Expr.deferralsIn es = []
  | [], _ => rfl
  | _ :: _, h =>
    List.append_eq_nil_iff.mpr ⟨h.1.deferrals_eq_nil, Expr.NormalAll.deferralsIn_eq_nil h.2⟩

end

/-! ## The types of declarations -/

/-- The types that a declaration holds; a function holds its result, its own type and the types of
its parameters. -/
def Decl.types (t : SymbolTable) (d : Decl) : List Ty :=
  match d.kind with
  | .object _ type _ | .parameter type | .super type => [type]
  | .callable _ c => c.result :: c.type :: c.parameters.filterMap fun p => (t.decl p).ownType?
  | .classDecl _ kind _ => [kind]
  | .typeParameter => []

/-- A type that can be reached from a unit: one that a declaration holds which can be reached. -/
def SourceUnit.HoldsType (u : SourceUnit) (t : SymbolTable) (type : Ty) : Prop :=
  ∃ id, u.Reaches t id ∧ (t.decl id).isExtension = false ∧ type ∈ (t.decl id).types t

variable {t : SymbolTable} {u : SourceUnit}

theorem Ty.Sound.normal {type : Ty} (h : type.Sound) (read : type.isDeferred = false) :
    type.Normal := by
  rcases h with deferred | normal
  · rw [read] at deferred
    cases deferred
  · exact normal

theorem Callable.Signed.normal_parameter {c : Callable} (h : c.Signed t) {p : DeclId}
    (member : p ∈ c.parameters) : ∃ type, (t.decl p).ownType? = some type ∧ type.Normal := by
  obtain ⟨type, kind, normal, -⟩ := h.parameters p member
  exact ⟨type, by simp [Decl.ownType?, Decl.typeIn?, kind], normal⟩

theorem Callable.Signed.normal_type {c : Callable} (h : c.Signed t) : c.type.Normal := by
  rw [h.type]
  refine ⟨Ty.normalAll_iff.mpr fun type member => ?_, h.result⟩
  obtain ⟨p, parameter, rfl⟩ := List.mem_map.mp member
  obtain ⟨type, own, normal⟩ := h.normal_parameter parameter
  simpa [own] using normal

/-- What has been announced has types in normal form. -/
theorem SymbolTable.Sound.normal_of_isAnnounced (sound : t.Sound) {id : DeclId}
    (announced : (t.decl id).IsAnnounced) (proper : (t.decl id).isExtension = false) :
    ∀ type ∈ (t.decl id).types t, type.Normal := by
  intro type member
  have known := sound.decls id
  unfold Decl.types at member
  unfold Decl.IsAnnounced at announced
  split at member
  · rename_i sort type init kind
    obtain rfl := List.mem_singleton.mp member
    rw [kind] at known announced
    exact known.declared.normal announced
  · rename_i kind
    rw [kind] at announced
    exact announced.elim
  · rename_i kind
    obtain rfl := List.mem_singleton.mp member
    rw [kind] at known announced
    exact Ty.Sound.normal known announced
  · rename_i sort c kind
    rw [kind] at known announced
    have signed : c.Signed t := known.type.resolve_left announced
    rcases List.mem_cons.mp member with rfl | member
    · exact signed.result
    rcases List.mem_cons.mp member with rfl | member
    · exact signed.normal_type
    · obtain ⟨p, member, own⟩ := List.mem_filterMap.mp member
      obtain ⟨type', own', normal⟩ := signed.normal_parameter member
      obtain rfl := Option.some.inj (own.symm.trans own')
      exact normal
  · rename_i sort kind' body kind
    obtain rfl := List.mem_singleton.mp member
    rw [kind] at known announced
    cases sort with
    | primary => exact known.1.normal announced
    | extension => simp [Decl.isExtension, kind] at proper
  · cases member

theorem SourceUnit.IsResolved.normal_of_holdsType (h : u.IsResolved t) {type : Ty}
    (holds : u.HoldsType t type) : type.Normal := by
  obtain ⟨id, reached, proper, member⟩ := holds
  obtain ⟨C, inside, completed⟩ := h.completes reached
  exact h.sound.normal_of_isAnnounced (completed id inside).announced proper type member

/-- In a source without faults nothing that can be reached is left unread: no expression, no type,
and nothing inside these. -/
theorem nothing_deferred_of_resolveSource {source : List Char} {file : String}
    (h : resolveSource source file = .ok (t, u)) :
    (∀ e, u.Holds t e → e.deferrals = []) ∧ ∀ type, u.HoldsType t type → type.deferrals = [] := by
  have resolved := isResolved_resolveSource h
  exact ⟨fun e holds => (resolved.wellTyped holds).normal.deferrals_eq_nil,
    fun type holds => (resolved.normal_of_holdsType holds).deferrals_eq_nil⟩

/-- A member that comes from an extension, and a constant that is needed before its turn. -/
def scatteredParts : List Char :=
  "extension C { def f(x: int32[N]) = N; } def N: auto = 3; class C { }".toList

theorem nothing_deferred_of_scatteredParts :
    ∃ t u, resolveSource scatteredParts "parts" = .ok (t, u) ∧
      (Stmt.declaresIn u.body).length = 2 ∧ (t.members ⟨4⟩).length = 1 ∧
      (∀ e, u.Holds t e → e.deferrals = []) ∧
        ∀ type, u.HoldsType t type → type.deferrals = [] := by
  have ran : ((resolveSource scatteredParts "parts").toOption.map fun p =>
      ((Stmt.declaresIn p.2.body).length, (p.1.members ⟨4⟩).length)) = some (2, 1) := by
    unfold scatteredParts
    rewrite [String.toList_ofList]
    decide +kernel
  obtain ⟨⟨t, u⟩, ok, parts⟩ := map_toOption_eq_some_iff.mp ran
  obtain ⟨declared, members⟩ := Prod.mk.inj parts
  exact ⟨t, u, ok, declared, members, nothing_deferred_of_resolveSource ok⟩

end Deferral
