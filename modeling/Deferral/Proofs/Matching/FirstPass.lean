import Deferral.Proofs.FirstPass.Announcing
import Deferral.Proofs.Generic.Holders
import Deferral.Proofs.Matching.Scope

/-!
# Constants of tables that match

Where types are read and objects defined in tables that match, the same constants are computed on the way
and get the same values. How many declarations a table has bounds how deep constants are followed; since
they never nest that deep, tables of different sizes follow them equally far.
-/

namespace Deferral

open Resolution

variable {M : Matching} {n : Nat} {bind bind' : DeclId → Resolution Unit}

namespace Matching

/-- Paired constants get their values in step in tables that match. -/
def Binds (M : Matching) (n : Nat) (bind bind' : DeclId → Resolution Unit) : Prop :=
  ∀ ⦃x x'⦄, M.left.decl x = M.right.decl x' → ∀ ⦃t t'⦄, M.Joins n t t' →
    (t.decl x).isConstant = true →
    TracksAt (M.Joins n) (fun _ _ => True) (bind x) t (bind' x') t'

end Matching

/-! ## Values -/

namespace Constant

variable {l : DeclId → DeclId}

theorem wrap_labelled (type : Ty) (k : Int) : (type.labelled l).wrap k = type.wrap k := by
  unfold Ty.wrap
  rw [← Ty.labelled_unqualified]
  cases type.unqualified <;> rfl

theorem unary_labelled (op : UnaryOp) (type : Ty) (c : Constant) :
    unary op (type.labelled l) c = unary op type c := by
  unfold unary
  simp only [wrap_labelled]

theorem arithmetic_labelled (op : Arithmetic) (type : Ty) (left right : Constant) :
    arithmetic op (type.labelled l) left right = arithmetic op type left right := by
  unfold arithmetic
  simp only [wrap_labelled]

theorem convert_labelled (conversion : Conversion) (type : Ty) (c : Constant) :
    convert conversion (type.labelled l) c = convert conversion type c := by
  unfold convert
  simp only [wrap_labelled]

end Constant

namespace Expr

theorem tracks_computed (span span' : Span) (o : Except EvaluationFault Constant) :
    Tracks (M.Joins n) Eq (computed span o) (computed span' o) := by
  cases o with
  | ok c => exact tracks_pure rfl
  | error fault => exact tracks_fail _ _ _

theorem tracks_truth (span span' : Span) (c : Constant) :
    Tracks (M.Joins n) Eq (truth span c) (truth span' c) := by
  cases c with
  | boolean b => exact tracks_pure rfl
  | _ => exact tracks_fail _ _ _

theorem tracks_evaluateName (binds : M.Binds n bind bind') {x x' : DeclId}
    (paired : M.left.decl x = M.right.decl x') (name : String) (span span' : Span) :
    Tracks (M.Joins n) Eq (evaluateName bind x name span) (evaluateName bind' x' name span') := by
  -- Paired names have the same constant, and so what is made of it is the same.
  have value {f f' : Option Constant → Resolution Constant} (kept : ∀ c, Tracks (M.Joins n) Eq (f (some c)) (f' (some c)))
      (lacking : Tracks (M.Joins n) Eq (f none) (f' none)) :
      Tracks (M.Joins n) Eq (look (·.constant? x) >>= f) (look (·.constant? x') >>= f') := by
    intro t t' same
    refine tracksAt_bind_look ?_
    rw [same.constant paired]
    cases t.constant? x with
    | some c => exact kept c same
    | none => exact lacking same
  intro t t' same
  refine tracksAt_bind_look ?_
  rw [(same.decl paired).isConstant]
  cases constant : (t.decl x).isConstant with
  | true =>
    refine (binds paired same constant).bind fun _ _ _ _ _ _ _ same => ?_
    exact value (fun _ => tracks_pure rfl) (tracks_fail _ _ _) same
  | false => exact value (fun _ => tracks_pure rfl) (tracks_fail _ _ _) same

/-- Expressions that are the same with their labels have the same value. -/
theorem tracks_evaluateWith (binds : M.Binds n bind bind') : ∀ e e' : Expr,
    e.labelled M.left.decl = e'.labelled M.right.decl →
    Tracks (M.Joins n) Eq (e.evaluateWith bind) (e'.evaluateWith bind')
  | ⟨node, type, span⟩, ⟨node', type', span'⟩, same => by
    obtain ⟨nodes, types, -⟩ := Expr.mk.inj same
    cases node with
    | deferred f =>
      cases node' with
      | deferred f' => exact tracks_internal _ _ _ _
      | _ => cases nodes
    | boolean b =>
      cases node' with
      | boolean b' =>
        obtain rfl := Node.boolean.inj nodes
        exact tracks_pure rfl
      | _ => cases nodes
    | integer k =>
      cases node' with
      | integer k' =>
        obtain rfl := Node.integer.inj nodes
        exact tracks_pure rfl
      | _ => cases nodes
    | float z =>
      cases node' with
      | float z' =>
        obtain rfl := Node.float.inj nodes
        exact tracks_pure rfl
      | _ => cases nodes
    | name x name =>
      cases node' with
      | name x' name' =>
        obtain ⟨paired, rfl⟩ := Node.name.inj nodes
        exact tracks_evaluateName binds paired name span span'
      | _ => cases nodes
    | unary op e =>
      cases node' with
      | unary op' e' =>
        obtain ⟨rfl, inner⟩ := Node.unary.inj nodes
        refine (tracks_evaluateWith binds e e' inner).bind ?_
        rintro c _ rfl
        rw [← Constant.unary_labelled (l := M.left.decl), types, Constant.unary_labelled]
        exact tracks_computed _ _ _
      | _ => cases nodes
    | binary op left right =>
      cases node' with
      | binary op' left' right' =>
        obtain ⟨rfl, first, second⟩ := Node.binary.inj nodes
        have onLeft := tracks_evaluateWith binds left left' first
        have onRight := tracks_evaluateWith binds right right' second
        cases op with
        | connective op =>
          refine onLeft.bind ?_
          rintro c _ rfl
          refine (tracks_truth _ _ c).bind ?_
          rintro l _ rfl
          by_cases decided : (l = true) = (op = .or)
          · simp only [if_pos decided]
            exact tracks_pure rfl
          · simp only [if_neg decided]
            refine onRight.bind ?_
            rintro c _ rfl
            refine (tracks_truth _ _ c).bind ?_
            rintro r _ rfl
            exact tracks_pure rfl
        | arithmetic op =>
          refine onLeft.bind ?_
          rintro l _ rfl
          refine onRight.bind ?_
          rintro r _ rfl
          rw [← Constant.arithmetic_labelled (l := M.left.decl), types, Constant.arithmetic_labelled]
          exact tracks_computed _ _ _
        | comparison op =>
          refine onLeft.bind ?_
          rintro l _ rfl
          refine onRight.bind ?_
          rintro r _ rfl
          exact tracks_computed _ _ _
      | _ => cases nodes
    | call callee es =>
      cases node' with
      | call callee' es' => exact tracks_fail _ _ _
      | _ => cases nodes
    | assign target value =>
      cases node' with
      | assign target' value' => exact tracks_fail _ _ _
      | _ => cases nodes
    | converted conversion e =>
      cases node' with
      | converted conversion' e' =>
        obtain ⟨rfl, inner⟩ := Node.converted.inj nodes
        refine (tracks_evaluateWith binds e e' inner).bind ?_
        rintro c _ rfl
        rw [← Constant.convert_labelled (l := M.left.decl), types, Constant.convert_labelled]
        exact tracks_computed _ _ _
      | _ => cases nodes

end Expr

/-! ## Types -/

namespace TypePhrase

theorem matches_ofDecltype {e e' : Expr} (same : e.Matches M.left.decl M.right.decl e') :
    (ofDecltype e).Matches M.left.decl M.right.decl (ofDecltype e') := by
  unfold ofDecltype
  rw [same.type.isDependent]
  split
  · rename_i dependent
    exact ⟨congrArg Ty.decltype same.same, dependent, same.type.isDependent.trans dependent⟩
  · exact same.type

theorem tracks_arrayOf {element element' : Ty} (same : element.Matches M.left.decl M.right.decl element')
    (extent : Constant) (position position' : Position) :
    Tracks (M.Joins n) (Ty.Matches M.left.decl M.right.decl) (arrayOf element extent position)
      (arrayOf element' extent position') := by
  unfold arrayOf
  split
  · exact tracks_pure ⟨congrArg (Ty.array · _) same.same, same.tame, same.tame'⟩
  · exact tracks_fail _ _ _

theorem tracks_typedIn {e e' : Phrase} (same : e.unplaced = e'.unplaced) :
    Tracks (M.Joins n) (Expr.Matches M.left.decl M.right.decl) (typedIn e) (typedIn e') :=
  fun _ _ tables => tracksAt_bind_get
    (tracks_ofExcept (Phrase.parallel_typed tables e e' same) tables)

theorem tracks_resolved (binds : M.Binds n bind bind') : ∀ p p' : TypePhrase, p.unplaced = p'.unplaced →
    Tracks (M.Joins n) (Ty.Matches M.left.decl M.right.decl) (p.resolved bind) (p'.resolved bind')
  | .name token, p', same => by
    cases p' with
    | name token' =>
      exact fun _ _ tables => tracksAt_bind_get
        (tracks_ofExcept (tables.parallel_namedType (TypePhrase.name.inj same)) tables)
    | _ => cases same
  | .auto, p', same => by
    cases p' with
    | auto => exact tracks_pure ⟨rfl, trivial, trivial⟩
    | _ => cases same
  | .decltypeAuto, p', same => by
    cases p' with
    | decltypeAuto => exact tracks_pure ⟨rfl, trivial, trivial⟩
    | _ => cases same
  | .decltype e, p', same => by
    cases p' with
    | decltype e' =>
      exact (tracks_typedIn (TypePhrase.decltype.inj same)).map fun _ _ => matches_ofDecltype
    | _ => cases same
  | .qualified inner q, p', same => by
    cases p' with
    | qualified inner' q' =>
      obtain ⟨inside, rfl⟩ := TypePhrase.qualified.inj same
      exact (tracks_resolved binds inner inner' inside).map fun _ _ types => types.addQualifiers q
    | _ => cases same
  | .pointer target, p', same => by
    cases p' with
    | pointer target' =>
      exact (tracks_resolved binds target target' (TypePhrase.pointer.inj same)).map fun _ _ types =>
        ⟨congrArg Ty.pointer types.same, types.tame, types.tame'⟩
    | _ => cases same
  | .reference target, p', same => by
    cases p' with
    | reference target' =>
      exact (tracks_resolved binds target target' (TypePhrase.reference.inj same)).map fun _ _ types =>
        types.toReference
    | _ => cases same
  | .sequence element, p', same => by
    cases p' with
    | sequence element' =>
      exact (tracks_resolved binds element element' (TypePhrase.sequence.inj same)).map fun _ _ types =>
        ⟨congrArg Ty.sequence types.same, types.tame, types.tame'⟩
    | _ => cases same
  | .array element extent, p', same => by
    cases p' with
    | array element' extent' =>
      obtain ⟨first, second⟩ := TypePhrase.array.inj same
      refine (tracks_resolved binds element element' first).bind fun type type' types => ?_
      refine (tracks_typedIn second).bind fun e e' typed => ?_
      refine (Expr.tracks_evaluateWith binds e e' typed.same).bind ?_
      rintro c _ rfl
      exact tracks_arrayOf types c _ _
    | _ => cases same

theorem tracks_check (binds : M.Binds n bind bind') {part part' : TypePart}
    (same : part.unplaced = part'.unplaced) :
    Tracks (M.Joins n) (fun _ _ => True) (check bind part) (check bind' part') := by
  cases part with
  | type p =>
    cases part' with
    | type p' => exact (tracks_resolved binds p p' (TypePart.type.inj same)).map fun _ _ _ => trivial
    | expression e' => cases same
  | expression e =>
    cases part' with
    | type p' => cases same
    | expression e' => exact (tracks_typedIn (TypePart.expression.inj same)).map fun _ _ _ => trivial

theorem tracks_checks (binds : M.Binds n bind bind') : ∀ parts parts' : List TypePart,
    parts.map TypePart.unplaced = parts'.map TypePart.unplaced →
    Tracks (M.Joins n) (fun _ _ => True) (parts.forM (check bind)) (parts'.forM (check bind'))
  | [], [], _ => tracks_pure trivial
  | part :: rest, part' :: rest', same => by
    obtain ⟨first, others⟩ := List.cons.inj same
    exact (tracks_check binds first).bind fun _ _ _ => tracks_checks binds rest rest' others
  | [], _ :: _, same | _ :: _, [], same => by cases same

theorem tracks_typeOf (binds : M.Binds n bind bind') {tokens tokens' : List Token}
    (same : tokens.map Token.unplaced = tokens'.map Token.unplaced) :
    Tracks (M.Joins n) (Ty.Matches M.left.decl M.right.decl) (typeOf bind tokens)
      (typeOf bind' tokens') := by
  have read := alike_ofTokens same
  unfold typeOf
  generalize ofTokens tokens = out at read
  generalize ofTokens tokens' = out' at read
  cases read with
  | ok same => exact tracks_resolved binds _ _ same
  | error parts fault =>
    exact (tracks_checks binds _ _ parts).bind fun _ _ _ => tracks_throw fault

end TypePhrase

/-! ## Defining objects -/

namespace Resolution

theorem tracks_forceExpression {e e' : Expr} (same : e.Matches M.left.decl M.right.decl e') :
    Tracks (M.Joins n) (Expr.Matches M.left.decl M.right.decl) (forceExpression e)
      (forceExpression e') :=
  fun _ _ tables => tracksAt_bind_get (tracks_ofExcept (tables.parallel_forceExpression same) tables)

theorem tracks_forceTypeWith (binds : M.Binds n bind bind') {type type' : Ty}
    (same : type.Matches M.left.decl M.right.decl type') :
    Tracks (M.Joins n) (Ty.Matches M.left.decl M.right.decl) (forceTypeWith bind type)
      (forceTypeWith bind' type') := by
  have deferred := same.isDeferred
  unfold forceTypeWith
  cases type with
  | deferred f =>
    cases type' with
    | deferred f' =>
      have tokens := congrArg Excerpt.tokens (Ty.deferred.inj same.same)
      exact (TypePhrase.tracks_typeOf binds tokens).rethrow fun _ _ fault =>
        Excerpt.alike_faulted "type" fault
    | _ => cases deferred
  | _ =>
    cases type' with
    | deferred f' => cases deferred
    | _ => exact tracks_pure same

/-- What a slot of paired declarations holds matches, and so do its types once they are resolved. -/
theorem tracks_forceSlotWith (binds : M.Binds n bind bind') {x x' : DeclId}
    (paired : M.left.decl x = M.right.decl x') (slot : TypeSlot) :
    Tracks (M.Joins n) (fun _ _ => True) (forceSlotWith bind x slot) (forceSlotWith bind' x' slot) := by
  intro t t' tables
  refine tracksAt_bind_look ?_
  have held := (tables.decl paired).typeIn? slot
  generalize (t.decl x).typeIn? slot = type? at held
  generalize (t'.decl x').typeIn? slot = type?' at held
  cases held with
  | none => exact tracks_internal _ _ _ _ tables
  | @some type type' same =>
    dsimp only
    rw [same.isDeferred]
    split
    · exact (tracks_forceTypeWith binds same).bind (fun _ _ types =>
        tracks_modify fun _ _ tables => tables.withTypeIn paired slot types) tables
    · exact tracks_pure trivial tables

theorem matches_deduce? {placeholder placeholder' : Ty} {e e' : Expr}
    (types : placeholder.Matches M.left.decl M.right.decl placeholder')
    (same : e.Matches M.left.decl M.right.decl e') :
    Option.Rel (Expr.Matches M.left.decl M.right.decl) (deduce? placeholder e)
      (deduce? placeholder' e') := by
  have shape := types.same
  unfold deduce?
  cases placeholder with
  | auto =>
    cases placeholder' with
    | auto => exact .some same.asValue
    | _ => cases shape
  | decltypeAuto =>
    cases placeholder' with
    | decltypeAuto => exact .some same
    | _ => cases shape
  | _ =>
    cases placeholder' with
    | auto | decltypeAuto => cases shape
    | _ => exact .none

theorem tracks_settleType {x x' : DeclId} (paired : M.left.decl x = M.right.decl x') {declared declared' : Ty}
    (types : declared.Matches M.left.decl M.right.decl declared') {init init' : Expr}
    (same : init.Matches M.left.decl M.right.decl init') :
    Tracks (M.Joins n) (Expr.Matches M.left.decl M.right.decl) (settleType x declared init)
      (settleType x' declared' init') := by
  have deduced := matches_deduce? types same
  unfold settleType
  generalize deduce? declared init = e? at deduced
  generalize deduce? declared' init' = e?' at deduced
  cases deduced with
  | none => exact tracks_ofExcept (Expr.matches_definingInitializer M.distinct M.distinct' same types)
  | some same =>
    exact (tracks_modify fun _ _ tables => tables.withTypeIn paired .declared same.type).bind
      fun _ _ _ => tracks_pure same

/-- Paired scopes are entered. -/
theorem tracks_under {α α' : Type} {A : α → α' → Prop} {action : Resolution α} {action' : Resolution α'}
    (h : Tracks (M.Joins n) A action action') {s s' : ScopeId} (paired : M.left.scope s = M.right.scope s')
    {t t' : SymbolTable} (tables : M.Joins n t t') (lt : s.index < t.scopes.size) :
    TracksAt (M.Joins n) A (under s action) t (under s' action') t' :=
  TracksAt.under (h (tables.enter paired lt)) fun _ _ tables => tables.leave

theorem tracks_settleObjectWith (binds : M.Binds n bind bind') {x x' : DeclId}
    (paired : M.left.decl x = M.right.decl x') :
    Tracks (M.Joins n) (fun _ _ => True) (settleObjectWith bind x) (settleObjectWith bind' x') := by
  intro t t' tables
  refine tracksAt_bind_look ?_
  have same := tables.decl paired
  have inits := same.initializer?
  have lt : (t.decl x).scope.index < t.scopes.size := by
    obtain ⟨_, layers⟩ := tables.confined.layered
    exact layers.declared x
  rw [same.isConstant]
  generalize (t.decl x).initializer? = init? at inits
  generalize (t'.decl x').initializer? = init?' at inits
  cases inits with
  | none => exact tracks_pure trivial tables
  | some init =>
    have forced : Tracks (M.Joins n) (Expr.Matches M.left.decl M.right.decl) _ _ :=
      (tracks_forceSlotWith binds paired .declared).bind fun _ _ _ => tracks_forceExpression init
    refine (tracks_under forced same.scope tables lt).bind fun init init' _ _ _ _ inits tables => ?_
    refine tracksAt_bind_look ?_
    have own := (tables.decl paired).ownType?
    generalize (SymbolTable.decl _ x).ownType? = type? at own
    generalize (SymbolTable.decl _ x').ownType? = type?' at own
    cases own with
    | none => exact tracksAt_bind_look (tracks_internal _ _ _ _ tables)
    | some types =>
      refine (tracks_settleType paired types inits).bind (fun init init' inits => ?_) tables
      have put : Tracks (M.Joins n) (fun _ _ => True)
          (modify (·.modifyDecl x (·.withInitializer init)) : Resolution Unit)
          (modify (·.modifyDecl x' (·.withInitializer init'))) :=
        tracks_modify fun _ _ tables => tables.withInitializer paired inits
      split
      · refine (Expr.tracks_evaluateWith binds init init' inits.same).bind ?_
        rintro value _ rfl
        exact (tracks_modify fun _ _ tables => tables.setConstant paired value).bind fun _ _ _ => put
      · exact put

theorem tracks_selfDependent {x x' : DeclId} (paired : M.left.decl x = M.right.decl x') :
    Tracks (M.Joins n) (fun _ _ => True) (selfDependent x) (selfDependent x') := by
  intro t t' tables
  refine tracksAt_bind_look ?_
  rw [(tables.decl paired).name]
  exact tracks_fail _ _ _ tables

theorem tracks_enterConstant {settle settle' : DeclId → Resolution Unit} {x x' : DeclId}
    (paired : M.left.decl x = M.right.decl x')
    (settles : Tracks (M.Joins n) (fun _ _ => True) (settle x) (settle' x')) :
    Tracks (M.Joins n) (fun _ _ => True) (enterConstant settle x) (enterConstant settle' x') := by
  intro t t' tables r u run
  rcases runs_enterConstant.mp run with ⟨inside, refused⟩ | ⟨free, t₁, inner, rfl⟩
  · obtain ⟨r', u', refused', after⟩ := tracks_selfDependent paired tables refused
    exact ⟨r', u', runs_enterConstant.mpr (.inl ⟨(tables.binding paired).mpr inside, refused'⟩), after⟩
  · obtain ⟨r', u', inner', outcome, after⟩ := settles (tables.startBinding paired) inner
    exact ⟨r', _, runs_enterConstant.mpr
      (.inr ⟨fun inside => free ((tables.binding paired).mp inside), u', inner', rfl⟩), outcome,
      after.finishBinding paired⟩

/-- More levels than there are constants make no difference. -/
theorem runs_ensureConstantWithin_of_le {t u : SymbolTable} {x : DeclId} {r : Except Diagnostic Unit}
    (constant : (t.decl x).isConstant = true) {level level' : Nat} (enough : t.decls.size ≤ level)
    (enough' : t.decls.size ≤ level') (run : Runs (ensureConstantWithin level x) t r u) :
    Runs (ensureConstantWithin level' x) t r u := by
  have member := SymbolTable.mem_constantDecls.mpr constant
  have few : remaining t.constantDecls t.binding ≤ t.decls.size :=
    Nat.le_trans (List.length_filter_le ..) t.length_constantDecls_le
  have nested {level : Nat} (enough : t.decls.size ≤ level) := agrees_bindNested (fun _ => pure ()) _ level
    t.binding (Nat.le_refl _) (Nat.le_trans few enough) x member
  exact ((nested enough).trans (nested enough').symm (.here t) run).1

end Resolution

namespace Matching

theorem binds_ensureConstantWithin : ∀ level : Nat,
    M.Binds n (ensureConstantWithin level) (ensureConstantWithin level)
  | 0, x, x', paired, t, t', tables, _ => by
    refine tracksAt_bind_look ?_
    rw [tables.constant paired]
    split
    · exact tracks_pure trivial tables
    · exact tracks_selfDependent paired tables
  | level + 1, x, x', paired, t, t', tables, _ => by
    refine tracksAt_bind_look ?_
    rw [tables.constant paired]
    split
    · exact tracks_pure trivial tables
    · exact tracks_enterConstant paired
        (tracks_settleObjectWith (binds_ensureConstantWithin level) paired) tables

/-- Paired constants get their values in step, however many declarations the tables have. -/
theorem binds_ensureConstant : M.Binds n ensureConstant ensureConstant := by
  intro x x' paired t t' tables constant r u run
  have constant' := (tables.decl paired).isConstant.trans constant
  obtain ⟨r', u', run', after⟩ := binds_ensureConstantWithin (max t.decls.size t'.decls.size) paired tables
    constant (runs_ensureConstantWithin_of_le constant (Nat.le_refl _) (Nat.le_max_left ..)
      (runs_bind_look.mp run))
  exact ⟨r', u', runs_bind_look.mpr
    (runs_ensureConstantWithin_of_le constant' (Nat.le_max_right ..) (Nat.le_refl _) run'), after⟩

end Matching

namespace Resolution

theorem tracks_forceSlot {x x' : DeclId} (paired : M.left.decl x = M.right.decl x') (slot : TypeSlot) :
    Tracks (M.Joins n) (fun _ _ => True) (forceSlot x slot) (forceSlot x' slot) :=
  tracks_forceSlotWith Matching.binds_ensureConstant paired slot

theorem tracks_settleObject {x x' : DeclId} (paired : M.left.decl x = M.right.decl x') :
    Tracks (M.Joins n) (fun _ _ => True) (settleObject x) (settleObject x') :=
  tracks_settleObjectWith Matching.binds_ensureConstant paired

end Resolution

/-! ## The first pass over tables that match

Paired declarations are passed over in step: their types are resolved in paired scopes, new type parameters
and the scopes of bodies are paired as they are made, and a class and the one paired with it take in paired
extensions. The second table needs no more levels of declarations inside declarations than the first one has.
-/

variable {M : Matching} {n m level : Nat} {t t' : SymbolTable} {x x' : DeclId} {s s' : ScopeId}

/-! ## Saved scopes -/

namespace Matching

/-- Owners that are paired own scopes that are. -/
structure Owns (M : Matching) (owner : ScopeOwner) (s s' : ScopeId) : Prop where
  owns : M.base.scopeOf? owner = some s
  paired : M.left.scope s = M.right.scope s'

theorem Joins.lt_of_owns (h : M.Joins n t t') {owner : ScopeOwner} (owns : M.Owns owner s s') :
    s.index < t.scopes.size :=
  h.confined.layered.lt_size ((h.confined.scopeOf? owner).trans owns.owns)

/-- Type parameters made for two functions are paired, and all of them are kept. -/
structure Made (M : Matching) (made made' : List DeclId) : Prop where
  same : made.map M.left.decl = made'.map M.right.decl
  keep : ∀ p ∈ made, M.keep p = true

theorem Made.nil : M.Made [] [] := ⟨rfl, by simp⟩

end Matching

namespace Resolution

theorem tracks_scopeOf {owner owner' : ScopeOwner} (saved : (M.base.scopeOf? owner).map M.left.scope =
    (M.base'.scopeOf? owner').map M.right.scope) :
    Tracks (M.Joins n) (M.Owns owner) (scopeOf owner) (scopeOf owner') := by
  intro t t' tables
  refine tracksAt_bind_look ?_
  rw [tables.confined.scopeOf?, tables.confined'.scopeOf?]
  cases owns : M.base.scopeOf? owner with
  | none =>
    cases owns' : M.base'.scopeOf? owner' with
    | none => exact tracks_internal _ _ _ _ tables
    | some s' => rw [owns, owns'] at saved; cases saved
  | some s =>
    cases owns' : M.base'.scopeOf? owner' with
    | none => rw [owns, owns'] at saved; cases saved
    | some s' =>
      rw [owns, owns'] at saved
      exact tracks_pure ⟨owns, Option.some.inj saved⟩ tables

theorem tracks_unexpectedDecl {α α' : Type} {A : α → α' → Prop} (d d' : Decl) :
    Tracks (M.Joins n) A (unexpectedDecl d) (unexpectedDecl d') :=
  tracks_internal _ _ _ _

end Resolution

namespace Signature

/-! ## Parameters -/

section

open Resolution

variable {l r : DeclId → DeclId} {type type' replacement replacement' : Ty}

theorem isUntyped_labelled (type : Ty) : isUntyped (type.labelled l) = isUntyped type := by
  induction type using isUntyped.induct with
  | case1 => rfl
  | case2 type ih | case3 type q ih => exact ih
  | case4 type auto reference qualified =>
    cases type with
    | auto => exact (auto rfl).elim
    | reference type => exact (reference type rfl).elim
    | qualified type q => exact (qualified type q rfl).elim
    | _ => rfl

theorem labelled_replaceAuto (replacement type : Ty) :
    (replaceAuto replacement type).labelled l =
      replaceAuto (replacement.labelled l) (type.labelled l) := by
  induction type using isUntyped.induct with
  | case1 => rfl
  | case2 type ih => simp only [replaceAuto, Ty.labelled, Ty.labelled_toReference, ih]
  | case3 type q ih => simp only [replaceAuto, Ty.labelled, Ty.labelled_addQualifiers, ih]
  | case4 type auto reference qualified =>
    cases type with
    | auto => exact (auto rfl).elim
    | reference type => exact (reference type rfl).elim
    | qualified type q => exact (qualified type q rfl).elim
    | _ => rfl

theorem tame_replaceAuto (new : replacement.Tame) : ∀ {type : Ty}, type.Tame →
    (replaceAuto replacement type).Tame
  | .auto, _ => new
  | .reference target, tame =>
    have inner : target.Tame := tame
    (tame_replaceAuto new inner).toReference
  | .qualified inner q, tame =>
    have inner : inner.Tame := tame
    (tame_replaceAuto new inner).addQualifiers q
  | .void, tame | .bool, tame | .integer _ _, tame | .float _, tame | .decltype _, tame
  | .decltypeAuto, tame | .function _ _, tame | .pointer _, tame | .array _ _, tame | .sequence _, tame
  | .named _ _ _, tame | .metatype, tame | .deferred _, tame => tame

theorem matches_replaceAuto (new : replacement.Matches l r replacement') (types : type.Matches l r type') :
    (replaceAuto replacement type).Matches l r (replaceAuto replacement' type') :=
  ⟨by rw [labelled_replaceAuto, new.same, types.same, labelled_replaceAuto],
    tame_replaceAuto new.tame types.tame, tame_replaceAuto new.tame' types.tame'⟩

/-- A new type parameter stands for `auto` in the types of both parameters, or in neither. -/
theorem tracks_parameter {owner : ScopeOwner} (owns : M.Owns owner s s') {made made' : List DeclId}
    (already : M.Made made made') (paired : M.left.decl x = M.right.decl x') :
    Tracks (M.Joins n) M.Made (parameter s made x) (parameter s' made' x') := by
  intro t t' tables
  refine tracksAt_bind_look ?_
  rw [(tables.decl paired).subject]
  refine (((tracks_forceSlot paired .declared).rethrow fun _ _ fault => fault.within _) tables).bind
    fun _ _ u u' _ _ _ tables => tracksAt_bind_look ?_
  have own := (tables.decl paired).ownType?
  have length : made'.length = made.length := by
    simpa using (congrArg List.length already.same).symm
  have fresh := tables.nextDecl
  have keep := tables.keep_nextDecl
  rw [length]
  generalize (u.decl x).span.start = position
  generalize (u'.decl x').span.start = position'
  generalize (u.decl x).ownType? = type? at own
  generalize (u'.decl x').ownType? = type?' at own
  cases own with
  | none => exact tracks_unexpectedDecl _ _ tables
  | @some type type' types =>
    refine tracksAt_bind_look ?_
    have untyped : isUntyped type' = isUntyped type := by
      rw [← isUntyped_labelled (l := M.left.decl) type, types.same, isUntyped_labelled]
    have new : (Ty.named .typeParameter u.nextDecl ("T" ++ made.length.repr)).Matches M.left.decl
        M.right.decl (.named .typeParameter u'.nextDecl ("T" ++ made.length.repr)) :=
      ⟨congrArg (Ty.named .typeParameter · _) fresh, trivial, trivial⟩
    have replaced {ps ps' : List DeclId} (made : M.Made ps ps') : Tracks (M.Joins n) M.Made _ _ :=
      (tracks_modify fun _ _ tables =>
        tables.withTypeIn paired .declared (matches_replaceAuto new types)).bind fun _ _ _ =>
          tracks_pure made
    rw [untyped]
    split
    · refine (tracks_modify fun _ _ tables => tables.addTypeParameter owns.paired (tables.lt_of_owns owns)
        position position' _).bind (fun _ _ _ => replaced ⟨?_, fun p member => ?_⟩) tables
      · simp [already.same, fresh]
      · rcases List.mem_append.mp member with old | new
        · exact already.keep p old
        · rw [List.mem_singleton.mp new]
          exact keep
    · exact replaced already tables

theorem tracks_parametersFrom {owner : ScopeOwner} (owns : M.Owns owner s s') :
    ∀ (ps ps' : List DeclId), ps.map M.left.decl = ps'.map M.right.decl → ∀ {made made' : List DeclId},
      M.Made made made' →
      Tracks (M.Joins n) M.Made (parametersFrom s made ps) (parametersFrom s' made' ps')
  | [], [], _, _, _, already => tracks_pure already
  | p :: ps, p' :: ps', same, _, _, already => by
    obtain ⟨first, others⟩ := List.cons.inj same
    exact (tracks_parameter owns already first).bind fun _ _ made =>
      tracks_parametersFrom owns ps ps' others made
  | [], _ :: _, same, _, _, _ | _ :: _, [], same, _, _, _ => by cases same

/-- Names are bound in the scopes of two functions alike. -/
theorem tracksAt_bindNames (plain : M.Plain s) (inner : s ≠ .global) (paired : M.left.scope s = M.right.scope s') :
    ∀ (made made' : List DeclId), M.Made made made' → ∀ {t t' : SymbolTable}, M.Joins n t t' →
      AllIn t s made →
      TracksAt (M.Joins n) (fun _ _ => True)
        (made.forM fun p => modify fun t => t.bindName s (t.decl p).name p : Resolution PUnit) t
        (made'.forM fun p => modify fun t => t.bindName s' (t.decl p).name p : Resolution PUnit) t'
  | [], [], _, _, _, tables, _ => tracks_pure trivial tables
  | p :: ps, p' :: ps', made, t, t', tables, allIn => by
    obtain ⟨first, others⟩ := List.cons.inj made.same
    obtain ⟨present, lies⟩ := allIn p (List.mem_cons_self ..)
    have matched := tables.decl first
    have lies' : (t'.decl p').scope = s' := M.distinctScopes' (matched.scope.symm.trans (lies ▸ paired))
    have stays := SymbolTable.stays_bindName tables.confined.layered present lies (t.decl p).name
    have bound := tables.bindName first (made.keep p (List.mem_cons_self ..)) present (lies ▸ plain)
      (lies ▸ inner) (t.decl p).name
    rw [lies, lies'] at bound
    have rest := tracksAt_bindNames plain inner paired ps ps'
      ⟨others, fun q member => made.keep q (List.mem_cons_of_mem p member)⟩ bound
      (AllIn.of_stays (fun q member => allIn q (List.mem_cons_of_mem p member)) stays)
    intro r u run
    obtain ⟨r', u', run', after⟩ := rest (runs_bind_modify.mp run)
    refine ⟨r', u', runs_bind_modify.mpr ?_, after⟩
    rw [matched.name]
    exact run'
  | [], _ :: _, made, _, _, _, _ => by cases made.same
  | _ :: _, [], made, _, _, _, _ => by cases made.same

/-! ## Functions -/

/-- The signatures of paired functions are resolved in step. -/
theorem tracks_functionSignature (signing : M.signing) (held : M.left.held x = M.right.held x')
    (owns : M.Owns (.decl x) s s') {c c' : Callable}
    (parts : c.parameters.map M.left.decl = c'.parameters.map M.right.decl) :
    Tracks (M.Joins n) (fun _ _ => True) (functionSignature x s c) (functionSignature x' s' c') := by
  intro t t' tables₀
  have paired := M.held held
  have plain := M.plainSaved signing held owns.owns
  have inner := Matching.Joins.ne_global_of_scopeOf? tables₀.confined.layered
    ((tables₀.confined.scopeOf? _).trans owns.owns)
  have resolved : Tracks (M.Joins n) M.Made _ _ :=
    (tracks_parametersFrom owns _ _ parts .nil).bind fun _ _ made =>
      (tracks_forceSlot paired .result).bind fun _ _ _ => tracks_pure made
  have lt := tables₀.lt_of_owns owns
  refine (tracks_under resolved owns.paired tables₀ lt).bind fun ps ps' u u' run _ made tables => ?_
  obtain ⟨-, allIn⟩ := stays_signatureParts tables₀.confined.layered lt run
  refine (tracksAt_bindNames plain inner owns.paired ps ps' made tables (allIn ps rfl)).bind
    fun _ _ _ _ _ _ _ tables => ?_
  refine (tracks_modify fun _ _ tables => tables.rebuildType paired).bind (fun _ _ _ => ?_) tables
  exact tracks_modify fun _ _ tables => tables.mapCallable paired (fun c c' parts =>
    ⟨parts.parameters, parts.result, parts.type, parts.body, by
      rw [List.map_append, List.map_append, parts.typeParameters, made.same]⟩) fun _ => rfl

end

end Signature

/-! ## What is inside functions stays there -/

theorem Decl.isPrimaryClass_eq (d : Decl) :
    d.isPrimaryClass = (d.members?.isSome && !d.isExtension) := by
  obtain ⟨name, kind, scope, span⟩ := d
  cases kind with
  | classDecl sort _ _ => cases sort <;> rfl
  | _ => rfl

theorem Decl.body_withInitializer (d : Decl) (e : Expr) : (d.withInitializer e).body = d.body := by
  obtain ⟨name, kind, scope, span⟩ := d
  cases kind with
  | object sort type init => cases init <;> rfl
  | _ => rfl

instance : SymbolTable.Settling SymbolTable.Keeps where
  refl := .refl
  trans _ _ _ := .trans
  leave h := ⟨h.body, h.members⟩
  values _ _ _ := .of_decls rfl
  withTypeIn _ _ slot type := .modifyDecl (Decl.body_withTypeIn _ slot type) (Decl.members?_withTypeIn ..)
  withInitializer _ _ _ := .modifyDecl (Decl.body_withInitializer ..) (Decl.members?_withInitializer ..)

namespace Signature

theorem keeps_bindNames (scope : ScopeId) : ∀ made : List DeclId,
    Resolution.Moves SymbolTable.Keeps
      (made.forM fun p => modify fun t => t.bindName scope (t.decl p).name p)
  | [] => Resolution.moves_pure _
  | _ :: rest => (Resolution.moves_modify fun _ => .of_decls rfl).bind fun _ => keeps_bindNames scope rest

theorem keeps_functionSignature (id : DeclId) (scope : ScopeId) (c : Callable) :
    Resolution.Moves SymbolTable.Keeps (functionSignature id scope c) := by
  refine (calm_signatureParts SymbolTable.Keeps.addTypeParameter id scope c.parameters).bind fun made =>
    (keeps_bindNames scope made).bind fun _ => ?_
  exact (Resolution.moves_modify fun t => .mapCallable t id fun _ => rfl).bind fun _ =>
    Resolution.moves_modify fun t => .mapCallable t id fun _ => rfl

end Signature

/-! ## How deep a pass goes -/

namespace SymbolTable

/-- While the body of a function is taken out there is one fewer with declarations inside, if there were
any in it. -/
theorem Bounded.walkBody (h : t.Bounded n) (lt : n < level + 1) (plain : (t.decl x).members? = none) :
    ∃ m, (Signature.withoutBody t x).Bounded m ∧ ((t.decl x).body.declares ≠ [] → m < level) ∧
      ∀ {t₂ : SymbolTable} {body : Body}, t₂.Bounded m → (t₂.decl x).members? = none →
        ((t.decl x).body.declares = [] → body.declares = []) →
        (Signature.withBody t₂ x body).Bounded n := by
  have inside {d : Decl} (plain : d.members? = none) : d.declares = d.body.declares := by
    rw [Decl.declares_eq, plain]
    exact List.append_nil _
  have put {u : SymbolTable} {body : Body} (plain : (u.decl x).members? = none) (empty : body.declares = []) :
      ((Signature.withBody u x body).decl x).declares = [] := by
    unfold Signature.withBody
    rw [decl_modifyDecl]
    split
    · rw [inside (by rw [Decl.members?_mapCallable, plain])]
      obtain ⟨name, kind, scope, span⟩ := u.decl x
      cases kind with
      | callable sort c => exact empty
      | _ => rfl
    · rename_i outside
      rw [decl_eq_default (Nat.le_of_not_lt fun lt => outside ⟨rfl, lt⟩)]
      rfl
  have others (u : SymbolTable) (body : Body) (y : DeclId) (ne : y ≠ x) :
      ((Signature.withBody u x body).decl y).declares = (u.decl y).declares :=
    congrArg Decl.declares (decl_modifyDecl_of_ne ne ..)
  obtain ⟨m, bounded, deep, refill⟩ := h.walk lt x (put plain rfl) (others t .absent)
  rw [inside plain] at deep refill
  exact ⟨m, bounded, deep, fun bounded₂ plain₂ empty =>
    refill bounded₂ (others _ _) fun none => put plain₂ (empty none)⟩

/-- While the members of a class are taken out there is one fewer with declarations inside, if there were
any in it. -/
theorem Bounded.walkMembers (h : t.Bounded n) (lt : n < level + 1)
    (isClass : (t.decl x).members?.isSome = true) :
    ∃ m, (Signature.withoutMembers t x).Bounded m ∧
      (Stmt.declaresIn (t.members x) ≠ [] → m < level) ∧
      ∀ {t₂ : SymbolTable} {body : List Stmt}, t₂.Bounded m → (t₂.decl x).members?.isSome = true →
        (Stmt.declaresIn (t.members x) = [] → Stmt.declaresIn body = []) →
        (t₂.modifyDecl x (·.mapMembers fun _ => body)).Bounded n := by
  have inside {u : SymbolTable} (isClass : (u.decl x).members?.isSome = true) :
      (u.decl x).declares = Stmt.declaresIn (u.members x) := by
    have bodiless : (u.decl x).body = .absent := by
      unfold Decl.body Decl.callable?
      unfold Decl.members? at isClass
      cases kind : (u.decl x).kind <;> first | rfl | simp [kind] at isClass
    rw [declares_eq, bodiless]
    exact List.nil_append _
  have put {u : SymbolTable} {body : List Stmt} (isClass : (u.decl x).members?.isSome = true)
      (empty : Stmt.declaresIn body = []) :
      ((u.modifyDecl x (·.mapMembers fun _ => body)).decl x).declares = [] := by
    have isClass' : ((u.modifyDecl x (·.mapMembers fun _ => body)).decl x).members?.isSome = true := by
      rw [decl_modifyDecl]
      split
      · rw [Decl.members?_mapMembers, Option.isSome_map, isClass]
      · exact isClass
    rw [inside isClass', members_mapMembers_self isClass, empty]
  have others (u : SymbolTable) (body : List Stmt) (y : DeclId) (ne : y ≠ x) :
      ((u.modifyDecl x (·.mapMembers fun _ => body)).decl y).declares = (u.decl y).declares :=
    congrArg Decl.declares (decl_modifyDecl_of_ne ne ..)
  obtain ⟨m, bounded, deep, refill⟩ := h.walk lt x (put isClass rfl) (others t [])
  rw [inside isClass] at deep refill
  exact ⟨m, bounded, deep, fun bounded₂ isClass₂ empty =>
    refill bounded₂ (others _ _) fun none => put isClass₂ (empty none)⟩

end SymbolTable

namespace Matching.Joins

variable {k : Nat} {u u' : SymbolTable}

theorem mono (h : M.Joins n t t') (le : n ≤ m) : M.Joins m t t' :=
  { h with bounded := h.bounded.mono le }

/-- No more declarations have others inside them than there are. -/
theorem min_size (h : M.Joins n t t') : M.Joins (min n t'.decls.size) t t' :=
  { h with
    bounded := by
      rcases Nat.le_total n t'.decls.size with less | more
      · rw [Nat.min_eq_left less]
        exact h.bounded
      · rw [Nat.min_eq_right more]
        exact t'.bounded_size }

/-- A declaration has members in all of the tables that match or in none. -/
theorem isSome_members? (h : M.Joins n t t') (h' : M.Joins k u u') (x' : DeclId) :
    (t'.decl x').members?.isSome = (u'.decl x').members?.isSome := by
  rw [h.confined'.classes, h'.confined'.classes]

theorem members?_eq_none (h : M.Joins n t t') (h' : M.Joins k u u') {c : Callable}
    (callable : (u'.decl x').callable? = some c) : (t'.decl x').members? = none := by
  have none : (u'.decl x').members? = none := by
    unfold Decl.callable? at callable
    unfold Decl.members?
    cases kind : (u'.decl x').kind <;> simp_all
  rw [← Option.not_isSome_iff_eq_none, h.isSome_members? h', none]
  exact Bool.false_ne_true

end Matching.Joins

namespace Signature

/-! ## Passes over statements inside -/

section Walk

open Faulting

/-- What has been made of the statement `old` and the one that matches it. -/
structure WalkedTo (M : Matching) (old s s' : Stmt) : Prop where
  same : s.Matches M.left M.right s'
  declares : s'.declares ⊆ old.declares

/-- What has been made of the statements `old` and those that match them. -/
structure AllWalkedTo (M : Matching) (old body body' : List Stmt) : Prop where
  same : Stmt.AllMatch M.left M.right body body'
  declares : Stmt.declaresIn body' ⊆ Stmt.declaresIn old

/-- The bodies of paired functions are walked in step, with a level less for what is inside them. -/
theorem tracks_function {walk walk' : Stmt → Reporting Stmt} (signing : M.signing)
    (held : M.left.held x = M.right.held x') (lt : n < level + 1)
    (walks : ∀ m s s', s.Matches M.left M.right s' → (s'.declares ≠ [] → m < level) →
      Reporting.Tracks (M.Joins m) (WalkedTo M s') (walk s) (walk' s')) :
    Tracks (M.Joins n) (fun _ _ => True) (function walk x) (function walk' x') := by
  intro t t' tables
  have paired := M.held held
  refine tracksAt_bind_resolve (Resolution.tracks_scopeOf (M.saved held) tables)
    fun s s' t₁ t₁' _ _ owns tables₁ => tracksAt_bind_look ?_
  have parts := (tables₁.decl paired).callable?
  cases callable : (t₁.decl x).callable? with
  | none =>
    rw [callable] at parts
    cases callable' : (t₁'.decl x').callable? with
    | some c' => rw [callable'] at parts; cases parts
    | none => exact tracksAt_resolve (Resolution.tracks_unexpectedDecl _ _ tables₁)
  | some c =>
    rw [callable] at parts
    cases callable' : (t₁'.decl x').callable? with
    | none => rw [callable'] at parts; cases parts
    | some c' =>
      rw [callable'] at parts
      obtain ⟨parts⟩ := parts
      dsimp only
      refine tracksAt_bind_resolve (tracks_functionSignature signing held owns parts.parameters tables₁)
        fun _ _ u u' _ run _ tables => tracksAt_bind_change ?_
      have body : (u'.decl x').body = c'.body := by
        rw [(keeps_functionSignature x' s' c' run).body, Decl.body, callable']
        rfl
      have plain {v v' : SymbolTable} {k : Nat} (joins : M.Joins k v v') : (v'.decl x').members? = none :=
        joins.members?_eq_none tables₁ callable'
      obtain ⟨m, bounded, deep, refill⟩ := tables.bounded.walkBody lt (plain tables)
      rw [body] at deep refill
      have hollow : M.Joins m (withoutBody u x) (withoutBody u' x') := tables.withBody paired .absent bounded
      have put {v v' : SymbolTable} {b b' : Body} (joins : M.Joins m v v') (new : b.Matches M.left M.right b')
          (empty : c'.body.declares = [] → b'.declares = []) : TracksAt (M.Joins n) (fun _ _ => True)
          (change (withBody · x b)) v (change (withBody · x' b')) v' :=
        tracksAt_change (joins.withBody paired new (refill joins.bounded (plain joins) empty))
      have bodies := parts.body
      cases body : c.body with
      | absent =>
        rw [body] at bodies
        rw [bodies.eq_absent]
        exact put hollow .absent fun _ => rfl
      | expression e =>
        rw [body] at bodies
        obtain ⟨e', body', same⟩ := bodies.of_expression
        rw [body']
        exact put hollow (.expression same) fun _ => rfl
      | statement stmt =>
        rw [body] at bodies
        obtain ⟨stmt', body', same⟩ := bodies.of_statement
        rw [body'] at deep put ⊢
        simp only [bind_map_left]
        have lt := hollow.lt_of_owns owns
        have entered := hollow.enter owns.paired lt
        refine tracksAt_bind_lift (Reporting.TracksAt.under (Reporting.TracksAt.underFresh
          (walks m stmt stmt' same deep (entered.addScope.enter entered.nextScope ?_))
          fun _ _ joins => joins.leave) fun _ _ joins => joins.leave) fun w w' _ _ walked joins =>
            put joins (.statement walked.same) fun empty => ?_
        · simp [SymbolTable.addScope, SymbolTable.nextScope]
        · exact List.subset_nil.mp (empty ▸ walked.declares)

/-- The members of paired classes are walked in step, with a level less for what is inside them. -/
theorem tracksAt_members {walk walk' : List Stmt → Reporting (List Stmt)}
    (held : M.left.held x = M.right.held x') (lt : n < level + 1)
    (walks : ∀ m body body', Stmt.AllMatch M.left M.right body body' →
      (Stmt.declaresIn body' ≠ [] → m < level) →
      Reporting.Tracks (M.Joins m) (AllWalkedTo M body') (walk body) (walk' body'))
    (tables : M.Joins n t t') (isClass : (t'.decl x').members?.isSome = true)
    (scopes : M.left.scope s = M.right.scope s') (inside : s.index < t.scopes.size) :
    Reporting.TracksAt (M.Joins n) (fun _ _ => True) (members walk x s) t (members walk' x' s') t' := by
  obtain ⟨m, bounded, deep, refill⟩ := tables.bounded.walkMembers lt isClass
  have hollow : M.Joins m (withoutMembers t x) (withoutMembers t' x') :=
    tables.withMembers held .nil bounded
  have entered := hollow.enter scopes inside
  refine Reporting.tracksAt_bind_look (Reporting.tracksAt_bind_change ?_)
  refine (Reporting.TracksAt.under (walks m _ _ (tables.members held) deep entered)
    fun _ _ joins => joins.leave).bind fun body body' u u' walked joins => ?_
  exact Reporting.tracksAt_change (joins.withMembers held walked.same
    (refill joins.bounded ((joins.isSome_members? tables x').trans isClass) fun empty => List.subset_nil.mp (empty ▸ walked.declares)))

end Walk

/-! ## Statements -/

theorem declaresIn_filter (p : Stmt → Bool) (body : List Stmt) :
    Stmt.declaresIn (body.filter p) ⊆ Stmt.declaresIn body := by
  induction body with
  | nil => exact List.Subset.refl _
  | cons s rest others =>
    rw [List.filter_cons]
    split
    · exact List.append_subset.mpr ⟨List.subset_append_left .., List.subset_append_of_subset_right _ others⟩
    · exact List.subset_append_of_subset_right _ others

/-- Of statements that match those are left out that declare paired extensions. -/
theorem matches_withoutExtensions (tables : M.Joins n t t') : ∀ {body body' : List Stmt},
    Stmt.AllMatch M.left M.right body body' →
    Stmt.AllMatch M.left M.right (withoutExtensions t body) (withoutExtensions t' body')
  | [], _, all => by
    obtain rfl := all.eq_nil
    exact .nil
  | stmt :: rest, _, all => by
    obtain ⟨stmt', rest', rfl, same, others⟩ := all.of_cons
    have declarations := same.declaration?
    have extension : (stmt'.declaration?.any fun id => (t'.decl id).isExtension) =
        stmt.declaration?.any fun id => (t.decl id).isExtension := by
      cases declares : stmt.declaration? with
      | none =>
        cases declares' : stmt'.declaration? with
        | none => rfl
        | some y' => rw [declares, declares'] at declarations; cases declarations
      | some y =>
        cases declares' : stmt'.declaration? with
        | none => rw [declares, declares'] at declarations; cases declarations
        | some y' =>
          rw [declares, declares'] at declarations
          exact (tables.decl (M.held (Option.some.inj declarations))).isExtension
    rw [withoutExtensions_cons, withoutExtensions_cons, extension]
    split
    · exact matches_withoutExtensions tables others
    · exact .cons same (matches_withoutExtensions tables others)

section Nested

open Reporting

variable {declare declare' : DeclId → Reporting Unit}

/-- Paired declarations of which the second are among `ids` are passed over in step. -/
def PassesInStep (M : Matching) (n : Nat) (declare declare' : DeclId → Reporting Unit) (ids : List DeclId) :
    Prop :=
  ∀ ⦃x x'⦄, M.left.held x = M.right.held x' → x' ∈ ids →
    Tracks (M.Joins n) (fun _ _ => True) (declare x) (declare' x')

mutual

theorem tracks_statement {ids : List DeclId} (declares : PassesInStep M n declare declare' ids) : ∀ stmt stmt' : Stmt,
    stmt.Matches M.left M.right stmt' → stmt'.declares ⊆ ids →
    Tracks (M.Joins n) (WalkedTo M stmt') (statement declare stmt) (statement declare' stmt')
  | .block id body span, stmt', same, among => by
    obtain ⟨id', body', span', rfl, blocks, all⟩ := same.of_block
    intro t t' tables
    refine (tracksAt_attempt (Resolution.tracks_scopeOf (M.savedBlock blocks) tables)).bind
      fun r r' u u' outcome tables => ?_
    cases outcome with
    | error fault =>
      exact (tracks_report fault).bind (fun _ _ _ => tracks_pure ⟨.block blocks all, List.Subset.refl _⟩) tables
    | ok owns =>
      have walked : Reporting.Tracks (M.Joins n) (AllWalkedTo M body') _ _ :=
        (tracks_statements declares body body' all among).bind fun _ _ all =>
          tracks_look fun _ _ tables => ⟨matches_withoutExtensions tables all.same,
            List.Subset.trans (declaresIn_filter _ _) all.declares⟩
      exact (TracksAt.under (walked (tables.enter owns.paired (tables.lt_of_owns owns)))
        fun _ _ tables => tables.leave).bind fun _ _ _ _ all tables =>
          tracksAt_pure ⟨.block blocks all.same, all.declares⟩ tables
  | .declaration id span, stmt', same, among => by
    obtain ⟨id', span', rfl, held⟩ := same.of_declaration
    exact (declares held (among (List.mem_singleton_self _))).bind fun _ _ _ =>
      tracks_pure ⟨.declaration held, List.Subset.refl _⟩
  | .conditional condition onTrue onFalse span, stmt', same, among => by
    obtain ⟨condition', onTrue', onFalse', span', rfl, conditions, first, second⟩ := same.of_conditional
    obtain ⟨among₁, among₂⟩ := List.append_subset.mp among
    refine (tracks_statement declares onTrue onTrue' first among₁).bind fun w w' walked => ?_
    refine (tracks_alternative declares onFalse onFalse' second among₂).bind fun v v' others => ?_
    exact tracks_pure ⟨.conditional conditions walked.same others.1,
      List.append_subset.mpr ⟨List.subset_append_of_subset_left _ walked.declares,
        List.subset_append_of_subset_right _ others.2⟩⟩
  | .whileLoop condition body span, stmt', same, among => by
    obtain ⟨condition', body', span', rfl, conditions, inner⟩ := same.of_whileLoop
    exact (tracks_statement declares body body' inner among).bind fun w w' walked =>
      tracks_pure ⟨.whileLoop conditions walked.same, walked.declares⟩
  | .returning value span, stmt', same, _ => by
    obtain ⟨value', span', rfl, -⟩ := same.of_returning
    exact tracks_pure ⟨same, List.Subset.refl _⟩
  | .yielding e span, stmt', same, _ => by
    obtain ⟨e', span', rfl, -⟩ := same.of_yielding
    exact tracks_pure ⟨same, List.Subset.refl _⟩
  | .breaking span, stmt', same, _ => by
    obtain ⟨span', rfl⟩ := same.of_breaking
    exact tracks_pure ⟨same, List.Subset.refl _⟩
  | .continuing span, stmt', same, _ => by
    obtain ⟨span', rfl⟩ := same.of_continuing
    exact tracks_pure ⟨same, List.Subset.refl _⟩
  | .expression e, stmt', same, _ => by
    obtain ⟨e', rfl, -⟩ := same.of_expression
    exact tracks_pure ⟨same, List.Subset.refl _⟩

theorem tracks_statements {ids : List DeclId} (declares : PassesInStep M n declare declare' ids) :
    ∀ body body' : List Stmt, Stmt.AllMatch M.left M.right body body' → Stmt.declaresIn body' ⊆ ids →
    Tracks (M.Joins n) (AllWalkedTo M body') (statements declare body) (statements declare' body')
  | [], body', all, _ => by
    obtain rfl := all.eq_nil
    exact tracks_pure ⟨.nil, List.Subset.refl _⟩
  | stmt :: rest, body', all, among => by
    obtain ⟨stmt', rest', rfl, first, others⟩ := all.of_cons
    obtain ⟨among₁, among₂⟩ := List.append_subset.mp among
    refine (tracks_statement declares stmt stmt' first among₁).bind fun w w' walked => ?_
    refine (tracks_statements declares rest rest' others among₂).bind fun ws ws' walkeds => ?_
    exact tracks_pure ⟨.cons walked.same walkeds.same,
      List.append_subset.mpr ⟨List.subset_append_of_subset_left _ walked.declares,
        List.subset_append_of_subset_right _ walkeds.declares⟩⟩

theorem tracks_alternative {ids : List DeclId} (declares : PassesInStep M n declare declare' ids) :
    ∀ onFalse onFalse' : Option Stmt, Stmt.ElsesMatch M.left M.right onFalse onFalse' →
    Stmt.declaresBehindElse onFalse' ⊆ ids →
    Tracks (M.Joins n) (fun w w' => Stmt.ElsesMatch M.left M.right w w' ∧
      Stmt.declaresBehindElse w' ⊆ Stmt.declaresBehindElse onFalse')
      (alternative declare onFalse) (alternative declare' onFalse')
  | none, onFalse', same, _ => by
    obtain rfl := same.eq_none
    exact tracks_pure ⟨.none, List.Subset.refl _⟩
  | some stmt, onFalse', same, among => by
    obtain ⟨stmt', rfl, inner⟩ := same.of_some
    exact (tracks_statement declares stmt stmt' inner among).map fun _ _ walked =>
      ⟨.some walked.same, walked.declares⟩

end

theorem tracks_sequence {ids : List DeclId} (declares : PassesInStep M n declare declare' ids)
    {body body' : List Stmt} (all : Stmt.AllMatch M.left M.right body body')
    (among : Stmt.declaresIn body' ⊆ ids) :
    Tracks (M.Joins n) (AllWalkedTo M body') (sequence declare body) (sequence declare' body') :=
  (tracks_statements declares body body' all among).bind fun _ _ all =>
    tracks_look fun _ _ tables => ⟨matches_withoutExtensions tables all.same,
      List.Subset.trans (declaresIn_filter _ _) all.declares⟩

end Nested

end Signature

/-! ## Classes -/

namespace Resolution

/-- Paired classes take in paired extensions that are declared in their own layers. -/
theorem tracksAt_absorbAll (signing : M.signing) {c c' : DeclId} {L L' : SymbolTable.Layering} {outer outer' : ScopeId}
    (held : M.left.held c = M.right.held c') (owns : M.base.scopeOf? (.decl c) = some outer)
    (owns' : M.base'.scopeOf? (.decl c') = some outer') :
    ∀ (ids ids' : List DeclId), ids.map M.left.decl = ids'.map M.right.decl → ∀ {t t' : SymbolTable},
      M.Joins n t t' → t.Layers L → t'.Layers L' → (t.decl c).isPrimaryClass = true →
      (∀ e ∈ ids, L.depth (t.decl e).scope = L.depth (t.decl c).scope) →
      (∀ e ∈ ids', L'.depth (t'.decl e).scope = L'.depth (t'.decl c').scope) →
      TracksAt (M.Joins n) (fun _ _ => True) (absorbAll c outer ids) t (absorbAll c' outer' ids') t'
  | [], [], _, _, _, tables, _, _, _, _, _ => tracks_pure trivial tables
  | e :: rest, e' :: rest', same, t, t', tables, layers, layers', primary, level, level' => by
    obtain ⟨first, others⟩ := List.cons.inj same
    have paired := M.held held
    have primary' := (tables.decl paired).isPrimaryClass.trans primary
    unfold absorbAll
    refine tracksAt_bind_look ?_
    rw [(tables.decl first).isExtension]
    split
    · rename_i extension
      have extension' := (tables.decl first).isExtension.trans extension
      have heldE := tables.extension signing first extension
      refine (tracks_scopeOf (M.saved heldE) tables).bind fun inner inner' u u' run run' _ _ => ?_
      obtain ⟨rfl, known⟩ := runs_scopeOf run
      obtain ⟨rfl, known'⟩ := runs_scopeOf run'
      have inside := known inner rfl
      have inside' := known' inner' rfl
      have ownsC := (tables.confined.scopeOf? _).trans owns
      have ownsC' := (tables.confined'.scopeOf? _).trans owns'
      have absorbed := layers.absorb (SymbolTable.not_isExtension_of_isPrimaryClass primary) extension
        (level e (List.mem_cons_self ..)) inside ownsC
      have absorbed' := layers'.absorb (SymbolTable.not_isExtension_of_isPrimaryClass primary') extension'
        (level' e' (List.mem_cons_self ..)) inside' ownsC'
      have leaves := SymbolTable.Layers.rests_absorb u c e inner outer
      have leaves' := SymbolTable.Layers.rests_absorb u' c' e' inner' outer'
      have joined := tables.absorb signing held heldE primary extension inside inside' ownsC ownsC'
        ⟨L, absorbed⟩ ⟨L', absorbed'⟩
      have rest := tracksAt_absorbAll signing held owns owns' rest rest' others joined absorbed absorbed'
        (by
          rw [SymbolTable.decl_absorb primary extension, if_pos rfl, Decl.isPrimaryClass_mapMembers]
          exact primary)
        (fun d member => by
          rw [leaves.scope, leaves.scope]
          exact level d (List.mem_cons_of_mem e member)) fun d member => by
            rw [leaves'.scope, leaves'.scope]
            exact level' d (List.mem_cons_of_mem e' member)
      intro r v run
      obtain ⟨r', v', run', after⟩ := rest (runs_bind_modify.mp run)
      exact ⟨r', v', runs_bind_modify.mpr run', after⟩
    · exact tracksAt_absorbAll signing held owns owns' rest rest' others tables layers layers' primary
        (fun d member => level d (List.mem_cons_of_mem e member))
        fun d member => level' d (List.mem_cons_of_mem e' member)
  | [], _ :: _, same, _, _, _, _, _, _, _, _ => by cases same
  | _ :: _, [], same, _, _, _, _, _, _, _, _ => by cases same

/-- What is bound to the names of two paired classes where they are declared, is paired or known not to
share the name. -/
theorem tracksAt_absorbExtensions (signing : M.signing) {c c' : DeclId} (held : M.left.held c = M.right.held c')
    (tables : M.Joins n t t') (primary : (t.decl c).isPrimaryClass = true)
    (sets : (((t.scope (t.decl c).scope).find? (t.decl c).name).getD []).map M.left.decl =
      (((t'.scope (t'.decl c').scope).find? (t'.decl c').name).getD []).map M.right.decl) :
    TracksAt (M.Joins n) (fun _ _ => True) (absorbExtensions (t.decl c).scope c) t
      (absorbExtensions (t'.decl c').scope c') t' := by
  obtain ⟨L, layers⟩ := tables.confined.layered
  obtain ⟨L', layers'⟩ := tables.confined'.layered
  have level {u : SymbolTable} {L : SymbolTable.Layering} (layers : u.Layers L) (x : DeclId) :
      ∀ e ∈ ((u.scope (u.decl x).scope).find? (u.decl x).name).getD [],
        L.depth (u.decl e).scope = L.depth (u.decl x).scope := by
    intro e member
    cases found : (u.scope (u.decl x).scope).find? (u.decl x).name with
    | none => rw [found] at member; cases member
    | some set =>
      rw [found] at member
      exact (layers.bound (s := (u.decl x).scope) (Names.binds_of_find? found member)).2
  refine tracksAt_bind_look ((tracks_scopeOf (M.saved held) tables).bind
    fun outer outer' u u' run run' owns _ => ?_)
  obtain ⟨rfl, -⟩ := runs_scopeOf run
  obtain ⟨rfl, known'⟩ := runs_scopeOf run'
  exact tracksAt_absorbAll signing held owns.owns
    ((tables.confined'.scopeOf? _).symm.trans (known' outer' rfl)) _ _ sets tables layers layers' primary
    (level layers c) (level layers' c')

end Resolution

namespace Faulting

/-- Paired classes share their names with paired declarations, or with none. -/
theorem tracksAt_withExtensions (signing : M.signing) {c c' : DeclId} (held : M.left.held c = M.right.held c')
    (tables : M.Joins n t t') (primary : (t.decl c).isPrimaryClass = true) {action action' : Reporting Unit}
    (acts : ∀ {u u' : SymbolTable}, M.Joins n u u' →
      Reporting.TracksAt (M.Joins n) (fun _ _ => True) action u action' u') :
    TracksAt (M.Joins n) (fun _ _ => True) (withExtensions (t.decl c).scope c action) t
      (withExtensions (t'.decl c').scope c' action') t' := by
  have paired := M.held held
  have matched := tables.decl paired
  have apart := tables.apart signing held primary
  refine tracksAt_bind_look (tracksAt_bind_look ?_)
  rw [matched.name]
  rcases tables.single signing matched.scope with plain | ⟨single, single'⟩
  · have aligned := tables.aligned plain matched.scope
    have sets : ((t.scope (t.decl c).scope).find? (t.decl c).name).map (List.map M.left.decl) =
        ((t'.scope (t'.decl c').scope).find? (t.decl c).name).map (List.map M.right.decl) := by
      rw [← aligned.names]
      cases found : (t.scope (t.decl c).scope).find? (t.decl c).name with
      | none => rfl
      | some set =>
        rcases tables.lacks found with all | lacks
        · simp [Matching.shown, List.filter_eq_self.mpr all]
        · exact absurd lacks.name (tables.apart signing held primary lacks.scope)
    have overloaded : t'.isOverloaded (t'.decl c').scope (t.decl c).name =
        t.isOverloaded (t.decl c).scope (t.decl c).name := by
      unfold SymbolTable.isOverloaded
      generalize (t.scope (t.decl c).scope).find? (t.decl c).name = set? at sets
      generalize (t'.scope (t'.decl c').scope).find? (t.decl c).name = set?' at sets
      cases set? with
      | none =>
        cases set?' with
        | none => rfl
        | some set' => cases sets
      | some set =>
        cases set?' with
        | none => cases sets
        | some set' =>
          have length := congrArg List.length (Option.some.inj sets)
          simp only [List.length_map] at length
          simp [length]
    rw [overloaded]
    split
    · have absorbed : TracksAt (M.Joins n) (fun _ _ => True)
          (do resolve (Resolution.absorbExtensions (t.decl c).scope c); action) t
          (do resolve (Resolution.absorbExtensions (t'.decl c').scope c'); action') t' := by
        refine tracksAt_bind_resolve (Resolution.tracksAt_absorbExtensions signing held tables primary ?_)
          fun _ _ _ _ _ _ _ tables => tracksAt_lift (acts tables)
        rw [matched.name]
        generalize (t.scope (t.decl c).scope).find? (t.decl c).name = set? at sets
        generalize (t'.scope (t'.decl c').scope).find? (t.decl c).name = set?' at sets
        cases set? <;> cases set?' <;> first | rfl | exact Option.some.inj sets | cases sets
      exact absorbed.ending fun _ _ tables =>
        tables.keepOnly matched.scope plain _ apart
    · exact tracksAt_lift (acts tables)
  · have alone {u : SymbolTable} {o : ScopeId} (single : Matching.Single (u.scope o)) (name : String) :
        u.isOverloaded o name = false := by
      unfold SymbolTable.isOverloaded
      cases found : (u.scope o).find? name with
      | none => rfl
      | some set => simpa using single name set found
    rw [alone single, alone single']
    exact tracksAt_lift (acts tables)

end Faulting

namespace Signature

/-- Paired classes are passed over in step. -/
theorem tracksAt_classMembers {walk walk' : List Stmt → Reporting (List Stmt)} (signing : M.signing)
    (held : M.left.held x = M.right.held x') (lt : n < level + 1)
    (walks : ∀ m body body', Stmt.AllMatch M.left M.right body body' →
      (Stmt.declaresIn body' ≠ [] → m < level) →
      Reporting.Tracks (M.Joins m) (AllWalkedTo M body') (walk body) (walk' body'))
    (tables : M.Joins n t t') (primary : (t.decl x).isPrimaryClass = true) :
    Faulting.TracksAt (M.Joins n) (fun _ _ => True) (classMembers walk x) t (classMembers walk' x') t' := by
  have paired := M.held held
  have matched := tables.decl paired
  have lt' : (t.decl x).scope.index < t.scopes.size := by
    obtain ⟨_, layers⟩ := tables.confined.layered
    exact layers.declared x
  refine Faulting.tracksAt_bind_look (Faulting.tracksAt_bind_resolve
    (Resolution.tracks_under (Resolution.tracks_forceSlot paired .kind) matched.scope tables lt')
    fun _ _ u u' run run' _ tables₁ => ?_)
  refine Faulting.tracksAt_bind_resolve (Resolution.tracks_scopeOf (M.saved held) tables₁)
    fun s s' v v' found found' owns _ => ?_
  obtain ⟨rfl, -⟩ := Resolution.runs_scopeOf found
  obtain ⟨rfl, -⟩ := Resolution.runs_scopeOf found'
  -- Resolving what sort of class it is moves neither of them.
  have still : t.LeavesScopes v := Resolution.calm_under (Resolution.calm_forceSlot x .kind) _ run
  have still' : t'.LeavesScopes v' := Resolution.calm_under (Resolution.calm_forceSlot x' .kind) _ run'
  have primary₁ : (v.decl x).isPrimaryClass = true := by
    rw [Decl.isPrimaryClass_eq, tables₁.confined.classes, ← tables.confined.classes, still.isExtension,
      ← Decl.isPrimaryClass_eq, primary]
  rw [← still.scope, ← still'.scope]
  refine Faulting.tracksAt_withExtensions signing held tables₁ primary₁ fun {w w'} tables => ?_
  refine tracksAt_members held lt walks tables ?_ owns.paired (tables.lt_of_owns owns)
  rw [tables.isSome_members? tables₁]
  exact SymbolTable.members?_isSome_of_isPrimaryClass
    ((tables₁.decl paired).isPrimaryClass.trans primary₁)

/-! ## Declarations -/

theorem tracks_object (paired : M.left.decl x = M.right.decl x') :
    Resolution.Tracks (M.Joins n) (fun _ _ => True) (object x) (object x') := by
  intro t t' tables
  obtain ⟨_, layers⟩ := tables.confined.layered
  exact Resolution.tracksAt_bind_look (Resolution.tracks_under (Resolution.tracks_forceSlot paired .declared)
    (tables.decl paired).scope tables (layers.declared x))

theorem tracks_declaration {declare declare' : DeclId → Reporting Unit} (signing : M.signing)
    (held : M.left.held x = M.right.held x') (lt : n < level + 1)
    (declares : ∀ m < level, ∀ ids, PassesInStep M m declare declare' ids) :
    Faulting.Tracks (M.Joins n) (fun _ _ => True) (declaration declare x) (declaration declare' x') := by
  intro t t' tables
  have paired := M.held held
  have kinds := (tables.decl paired).kind
  -- Where nothing is declared inside, no level is needed.
  have inner {m : Nat} {ids : List DeclId} (deep : ids ≠ [] → m < level) :
      PassesInStep M m declare declare' ids := by
    intro y y' held member
    exact declares m (deep (List.ne_nil_of_mem member)) ids held member
  refine Faulting.tracksAt_bind_look ?_
  generalize d : t.decl x = decl at kinds
  generalize d' : t'.decl x' = decl' at kinds
  obtain ⟨name, kind, scope, span⟩ := decl
  obtain ⟨name', kind', scope', span'⟩ := decl'
  cases kind with
  | object sort type init =>
    cases kind' with
    | object _ _ _ => exact Faulting.tracksAt_resolve (tracks_object paired tables)
    | _ => cases kinds
  | super type =>
    cases kind' with
    | super _ => exact Faulting.tracksAt_resolve (tracks_object paired tables)
    | _ => cases kinds
  | callable sort c =>
    cases kind' with
    | callable _ _ =>
      exact tracks_function signing held lt (fun m s s' same deep =>
        tracks_statement (inner deep) s s' same (List.Subset.refl _)) tables
    | _ => cases kinds
  | classDecl sort type body =>
    cases kind' with
    | classDecl sort' _ _ =>
      obtain ⟨rfl, -⟩ := Declared.classDecl.inj kinds
      cases sort with
      | extension => exact Faulting.tracks_pure trivial tables
      | primary =>
        exact tracksAt_classMembers signing held lt (fun m body body' all deep =>
          tracks_sequence (inner deep) all (List.Subset.refl _)) tables (by rw [d]; rfl)
    | _ => cases kinds
  | parameter type =>
    cases kind' with
    | parameter _ => exact Faulting.tracksAt_resolve (Resolution.tracks_unexpectedDecl _ _ tables)
    | _ => cases kinds
  | typeParameter =>
    cases kind' with
    | typeParameter => exact Faulting.tracksAt_resolve (Resolution.tracks_unexpectedDecl _ _ tables)
    | _ => cases kinds

/-- With more levels than functions and classes that have something inside them in the second table. -/
theorem passesInStep_declareWithin (signing : M.signing) : ∀ (level : Nat), ∀ n < level, ∀ more ≥ level,
    ∀ ids, PassesInStep M n (declareWithin more) (declareWithin level) ids
  | level + 1, n, lt, more + 1, enough, ids, x, x', held, member => by
    have declares := passesInStep_declareWithin signing level
    have passed : Faulting.Tracks (M.Joins n) (fun _ _ => True) (declaration (declareWithin more) x)
        (declaration (declareWithin level) x') :=
      tracks_declaration signing held lt fun m lt ids => declares m lt more (Nat.le_of_succ_le_succ enough) ids
    intro t t' tables
    refine (Faulting.TracksAt.fault? (passed tables)).bind fun fault? fault?' u u' related tables => ?_
    refine Reporting.tracksAt_bind_look ?_
    rw [(tables.decl (M.held held)).subject]
    exact Reporting.tracks_reportWithin _ related tables

/-- Paired declarations are passed over in step if the second table is no larger. -/
theorem passesInStep_declare (signing : M.signing) (smaller : M.base'.decls.size ≤ M.base.decls.size)
    (n : Nat) (ids : List DeclId) : PassesInStep M n declare declare ids := by
  intro x x' held member t t' tables
  refine Reporting.tracksAt_bind_look ?_
  have le : t'.decls.size ≤ t.decls.size := by
    obtain ⟨k, size, size'⟩ := tables.decls
    omega
  have short : min n t'.decls.size < t'.decls.size + 1 := by omega
  exact (passesInStep_declareWithin signing _ _ short _ (Nat.succ_le_succ le) ids held member
    tables.min_size).mono (fun _ _ _ => trivial) fun u u' tables => tables.mono (Nat.min_le_left ..)

end Signature

end Deferral
