import Deferral.Proofs.Integrity.Integral

/-!
# Who holds a declaration

A function holds its parameters and what is declared in its body, a class its members. How often a
declaration is held in a table is counted over all holders: what is taken out of one of them is held as
often less, and what is put into one at most as often more.
-/

namespace Deferral

open SymbolTable

/-! ## Holders -/

namespace Decl

/-- The parameters of a function; nothing else has any. -/
def parameters (d : Decl) : List DeclId := (d.callable?.map (·.parameters)).getD []

/-- What a declaration holds: its parameters and what is declared inside it. -/
def holds (d : Decl) : List DeclId := d.parameters ++ d.declares

variable {d : Decl}

theorem parameters_of_kind {sort : CallableSort} {c : Callable} (kind : d.kind = .callable sort c) :
    d.parameters = c.parameters := by
  simp [parameters, callable?, kind]

theorem holds_of_typeParameter (kind : d.kind = .typeParameter) : d.holds = [] := by
  simp [holds, parameters, callable?, declares, kind]

theorem holds_withTypeIn (slot : TypeSlot) (type : Ty) : (d.withTypeIn slot type).holds = d.holds := by
  unfold withTypeIn
  split <;> simp_all [holds, parameters, callable?, declares]

theorem holds_withInitializer (e : Expr) : (d.withInitializer e).holds = d.holds := by
  unfold withInitializer
  split <;> simp_all [holds, parameters, callable?, declares]

theorem parameters_mapCallable {f : Callable → Callable} (same : ∀ c, (f c).parameters = c.parameters) :
    (d.mapCallable f).parameters = d.parameters := by
  unfold mapCallable
  split <;> simp_all [parameters, callable?]

theorem holds_mapCallable {f : Callable → Callable} (parameters : ∀ c, (f c).parameters = c.parameters)
    (body : ∀ c, (f c).body = c.body) : (d.mapCallable f).holds = d.holds := by
  rw [holds, holds, parameters_mapCallable parameters, declares_mapCallable d body]

/-- A function of which only the name has been read is given its parts. -/
theorem count_holds_complete (d : Decl) (c : Callable) (span : Span) (w : DeclId) :
    (Decl.holds { d.mapCallable (fun _ => c) with span }).count w ≤
      d.holds.count w + (c.parameters ++ c.body.declares).count w := by
  unfold holds mapCallable
  split <;> simp_all [parameters, callable?, declares]

theorem count_holds_withBody (d : Decl) (body : Body) (w : DeclId) :
    (d.mapCallable fun c => { c with body }).holds.count w + d.body.declares.count w ≤
      d.holds.count w + body.declares.count w := by
  unfold holds mapCallable
  split <;> simp_all [parameters, callable?, Decl.body, declares, Body.declares]
  omega

theorem count_holds_withoutBody (d : Decl) (w : DeclId) :
    d.holds.count w = (d.mapCallable fun c => { c with body := .absent }).holds.count w +
      d.body.declares.count w := by
  unfold holds mapCallable
  split <;> simp_all [parameters, callable?, Decl.body, declares, Body.declares]

theorem count_holds_withMembers (d : Decl) (body : List Stmt) (w : DeclId) :
    (d.mapMembers fun _ => body).holds.count w ≤ d.holds.count w + (Stmt.declaresIn body).count w := by
  unfold holds mapMembers
  split <;> simp_all [parameters, callable?, declares]

theorem count_holds_withoutMembers (d : Decl) (w : DeclId) :
    d.holds.count w = (d.mapMembers fun _ => []).holds.count w +
      (Stmt.declaresIn (d.members?.getD [])).count w := by
  unfold holds mapMembers
  split <;> simp_all [parameters, callable?, members?, declares, Stmt.declaresIn]

theorem count_holds_extendMembers (d : Decl) (more : List Stmt) (w : DeclId) :
    (d.mapMembers (· ++ more)).holds.count w ≤ d.holds.count w + (Stmt.declaresIn more).count w := by
  unfold holds mapMembers
  split <;> simp_all [parameters, callable?, declares]

end Decl

/-- A sum one summand of which has changed. -/
theorem sum_map_modify {α : Type} (g : α → Nat) (f : α → α) : ∀ (l : List α) {i : Nat} (lt : i < l.length),
    ((l.modify i f).map g).sum + g l[i] = (l.map g).sum + g (f l[i])
  | a :: l, 0, _ => by
    simp only [List.modify_zero_cons, List.map_cons, List.sum_cons, List.getElem_cons_zero]
    omega
  | a :: l, i + 1, lt => by
    have ih := sum_map_modify g f l (Nat.lt_of_succ_lt_succ lt)
    simp only [List.modify_succ_cons, List.map_cons, List.sum_cons, List.getElem_cons_succ]
    omega

namespace SymbolTable

variable {t t' : SymbolTable} {id w : DeclId}

/-- How often a declaration is held. -/
def held (t : SymbolTable) (w : DeclId) : Nat := (t.decls.toList.map fun d => d.holds.count w).sum

/-- Every declaration is held as often as before. -/
def LeavesHeld (t t' : SymbolTable) : Prop := ∀ w, t'.held w = t.held w

theorem LeavesHeld.of_decls (same : t'.decls = t.decls) : t.LeavesHeld t' := fun w => by rw [held, same, held]

theorem count_holds_le_held (t : SymbolTable) (id w : DeclId) : (t.decl id).holds.count w ≤ t.held w := by
  by_cases lt : id.index < t.decls.size
  · exact List.le_sum_of_mem (List.mem_map_of_mem (decl_mem_decls lt))
  · rw [Decl.holds_of_typeParameter (kind_eq_typeParameter (Nat.not_lt.mp lt))]
    exact Nat.zero_le _

/-- What every declaration holds less often is held less often. -/
theorem held_le_of_holds (size : t'.decls.size = t.decls.size)
    (le : ∀ id, (t'.decl id).holds.count w ≤ (t.decl id).holds.count w) : t'.held w ≤ t.held w := by
  refine List.Forall₂.sum_le_sum (List.forall₂_iff_get.mpr ⟨by simp [size], fun i lt lt' => ?_⟩)
  rw [List.length_map, Array.length_toList] at lt lt'
  have le := le ⟨i⟩
  simpa [decl, Array.getD_eq_getD_getElem?, lt, lt'] using le

/-! ## Changes of a table -/

/-- What a declaration held before its change and what it holds afterwards make up the difference. -/
theorem held_modifyDecl (lt : id.index < t.decls.size) (f : Decl → Decl) (w : DeclId) :
    (t.modifyDecl id f).held w + (t.decl id).holds.count w = t.held w + (f (t.decl id)).holds.count w := by
  have here : t.decl id = t.decls.toList[id.index] := by
    simp [SymbolTable.decl, Array.getD_eq_getD_getElem?, lt]
  rw [here, held, modifyDecl, Array.toList_modify]
  exact sum_map_modify (fun d : Decl => d.holds.count w) f _ _

/-- Nothing changes where no declaration has been made. -/
theorem leavesHeld_modifyDecl_of_le (le : t.decls.size ≤ id.index) (f : Decl → Decl) :
    t.LeavesHeld (t.modifyDecl id f) := by
  refine .of_decls (Array.ext' ?_)
  rw [modifyDecl, Array.toList_modify]
  exact List.modify_eq_self (by simpa using le)

theorem LeavesHeld.modifyDecl {f : Decl → Decl} (same : (f (t.decl id)).holds = (t.decl id).holds) :
    t.LeavesHeld (t.modifyDecl id f) := by
  by_cases lt : id.index < t.decls.size
  · intro w
    have sum := held_modifyDecl lt f w
    rw [same] at sum
    omega
  · exact leavesHeld_modifyDecl_of_le (Nat.not_lt.mp lt) f

theorem LeavesHeld.mapCallable (t : SymbolTable) (id : DeclId) {f : Callable → Callable}
    (parameters : ∀ c, (f c).parameters = c.parameters) (body : ∀ c, (f c).body = c.body) :
    t.LeavesHeld (t.modifyDecl id (·.mapCallable f)) :=
  .modifyDecl (Decl.holds_mapCallable parameters body)

/-- A declaration is given to hold what it did not hold before. -/
theorem held_modifyDecl_le {f : Decl → Decl} {ids : List DeclId}
    (given : (f (t.decl id)).holds.count w ≤ (t.decl id).holds.count w + ids.count w) :
    (t.modifyDecl id f).held w ≤ t.held w + ids.count w := by
  by_cases lt : id.index < t.decls.size
  · have sum := held_modifyDecl lt f w
    omega
  · have same := leavesHeld_modifyDecl_of_le (Nat.not_lt.mp lt) f w
    omega

/-- What is taken out of a declaration is held as often less. -/
theorem held_eq_add_of_modifyDecl {f : Decl → Decl} {n : Nat}
    (taken : (t.decl id).holds.count w = (f (t.decl id)).holds.count w + n) :
    t.held w = (t.modifyDecl id f).held w + n := by
  by_cases lt : id.index < t.decls.size
  · have sum := held_modifyDecl lt f w
    omega
  · have same := leavesHeld_modifyDecl_of_le (Nat.not_lt.mp lt) f w
    rw [Decl.holds_of_typeParameter (kind_eq_typeParameter (Nat.not_lt.mp lt)), List.count_nil] at taken
    omega

theorem held_push {d : Decl} (decls : t'.decls = t.decls.push d) (w : DeclId) :
    t'.held w = t.held w + d.holds.count w := by
  simp [held, decls]

/-- What two declarations hold counts twice. -/
theorem count_holds_add_le_held {other : DeclId} (ne : other ≠ id) (w : DeclId) :
    (t.decl id).holds.count w + (t.decl other).holds.count w ≤ t.held w := by
  by_cases lt : id.index < t.decls.size
  · have sum := held_modifyDecl lt (fun _ => default) w
    have rest := (t.modifyDecl id fun _ => default).count_holds_le_held other w
    rw [decl_modifyDecl_of_ne ne] at rest
    have nothing : (default : Decl).holds = [] := rfl
    rw [nothing, List.count_nil] at sum
    omega
  · rw [Decl.holds_of_typeParameter (kind_eq_typeParameter (Nat.not_lt.mp lt)), List.count_nil, Nat.zero_add]
    exact count_holds_le_held ..

instance : Settling LeavesHeld where
  refl _ _ := rfl
  trans _ _ _ h h' w := (h' w).trans (h w)
  leave h := h
  values _ _ _ _ := rfl
  withTypeIn _ _ _ _ := .modifyDecl (Decl.holds_withTypeIn ..)
  withInitializer _ _ _ := .modifyDecl (Decl.holds_withInitializer ..)

end SymbolTable

namespace Signature

open Resolution

variable {t t' : SymbolTable} {id w : DeclId}

/-! ## Signatures -/

theorem leavesHeld_addTypeParameter (t : SymbolTable) (scope : ScopeId) (position : Position) (count : Nat) :
    t.LeavesHeld (addTypeParameter scope position count t) := by
  intro w
  have pushed := held_push (rfl : (addTypeParameter scope position count t).decls = t.decls.push _) w
  rwa [Decl.holds_of_typeParameter rfl, List.count_nil, Nat.add_zero] at pushed

/-- A relation that settling has is one that resolving the parameters and the result of a function has, if
adding type parameters has it. -/
theorem calm_parameter {R : SymbolTable → SymbolTable → Prop} [Settling R]
    (adds : ∀ t scope position count, R t (addTypeParameter scope position count t)) (scope : ScopeId)
    (made : List DeclId) (id : DeclId) : Moves R (parameter scope made id) := by
  refine moves_bind_look fun subject => ((calm_forceSlot id .declared).rethrow _).bind fun _ =>
    moves_bind_look fun d => ?_
  split
  · exact moves_unexpectedDecl d
  refine moves_bind_look fun fresh => ?_
  have retyped (type : Ty) :
      Moves R (modify (·.modifyDecl id (·.withTypeIn .declared type)) : Resolution PUnit) :=
    moves_modify fun t => Settling.withTypeIn t id .declared type
  split
  · exact (moves_modify fun t => adds t _ _ _).bind fun _ => (retyped _).bind fun _ => moves_pure _
  · exact (retyped _).bind fun _ => moves_pure _

theorem calm_parametersFrom {R : SymbolTable → SymbolTable → Prop} [Settling R]
    (adds : ∀ t scope position count, R t (addTypeParameter scope position count t)) (scope : ScopeId) :
    ∀ (ps made : List DeclId), Moves R (parametersFrom scope made ps)
  | [], _ => moves_pure _
  | p :: rest, made => (calm_parameter adds scope made p).bind fun _ => calm_parametersFrom adds scope rest _

theorem calm_signatureParts {R : SymbolTable → SymbolTable → Prop} [Settling R]
    (adds : ∀ t scope position count, R t (addTypeParameter scope position count t)) (id : DeclId)
    (scope : ScopeId) (ps : List DeclId) : Moves R (under scope do
      let made ← parametersFrom scope [] ps
      forceSlot id .result
      return made) :=
  calm_under ((calm_parametersFrom adds scope ps []).bind fun _ =>
    (calm_forceSlot id .result).bind fun _ => moves_pure _) scope

theorem leavesHeld_bindNames (scope : ScopeId) : ∀ made : List DeclId,
    Moves LeavesHeld (made.forM fun p => modify fun t => t.bindName scope (t.decl p).name p)
  | [] => moves_pure _
  | _ :: rest => (moves_modify fun _ => .of_decls rfl).bind fun _ => leavesHeld_bindNames scope rest

/-- Whatever comes of the signature of a function, all is held that was held. -/
theorem leavesHeld_functionSignature (id : DeclId) (scope : ScopeId) (c : Callable) :
    Moves LeavesHeld (functionSignature id scope c) := by
  refine (calm_signatureParts leavesHeld_addTypeParameter id scope c.parameters).bind fun made =>
    (leavesHeld_bindNames scope made).bind fun _ => ?_
  exact (moves_modify fun t => .mapCallable t id (fun _ => rfl) fun _ => rfl).bind fun _ =>
    moves_modify fun t => .mapCallable t id (fun _ => rfl) fun _ => rfl

/-! ## Bodies and members -/

/-- What is declared in a body that is taken out of a function is held by it no more. -/
theorem held_withoutBody (t : SymbolTable) (id w : DeclId) :
    t.held w = (withoutBody t id).held w + (t.decl id).body.declares.count w :=
  held_eq_add_of_modifyDecl ((t.decl id).count_holds_withoutBody w)

theorem held_withBody (t : SymbolTable) (id : DeclId) (body : Body) (w : DeclId) :
    (withBody t id body).held w ≤ t.held w + body.declares.count w :=
  held_modifyDecl_le (Nat.le_of_add_right_le ((t.decl id).count_holds_withBody body w))

/-- The members that are taken out of a class are held by it no more. -/
theorem held_withoutMembers (t : SymbolTable) (id w : DeclId) :
    t.held w = (withoutMembers t id).held w + (Stmt.declaresIn (t.members id)).count w :=
  held_eq_add_of_modifyDecl ((t.decl id).count_holds_withoutMembers w)

theorem held_withMembers (t : SymbolTable) (id : DeclId) (body : List Stmt) (w : DeclId) :
    (t.modifyDecl id (·.mapMembers fun _ => body)).held w ≤ t.held w + (Stmt.declaresIn body).count w :=
  held_modifyDecl_le ((t.decl id).count_holds_withMembers body w)

theorem held_extendMembers (t : SymbolTable) (id : DeclId) (more : List Stmt) (w : DeclId) :
    (t.modifyDecl id (·.mapMembers (· ++ more))).held w ≤ t.held w + (Stmt.declaresIn more).count w :=
  held_modifyDecl_le ((t.decl id).count_holds_extendMembers more w)

/-- What a class takes over from an extension is held by that no more. -/
theorem held_absorb (t : SymbolTable) (cls e : DeclId) (inner outer : ScopeId) (w : DeclId) :
    (t.absorb cls e inner outer).held w ≤ t.held w := by
  have moved (t : SymbolTable) :
      ((withoutMembers t e).modifyDecl cls (·.mapMembers (· ++ t.members e))).held w ≤ t.held w :=
    (held_extendMembers _ cls (t.members e) w).trans (held_withoutMembers t e w).ge
  have imported : t.LeavesHeld
      ((t.modifyScope outer (·.extendAll (t.scope inner).names)).reparent inner outer) := .of_decls rfl
  exact (moved _).trans (imported w).le

end Signature

end Deferral
