import Deferral.Proofs.Integrity.Integral
import Deferral.Proofs.Typing.Undeferred

/-!
# Types stay in layers

A reference refers to no reference, and qualifiers stand once, around something that is no reference, and are
some. Types are read, deduced, converted to and given to type parameters, and the expressions that `decltype`
keeps have types themselves; none that can be reached from what is declared or from a unit has its layers
otherwise, whether what it belongs to has been resolved, has failed or has not been read yet.
-/

namespace Deferral

open SymbolTable

variable {t : SymbolTable} {us : List SourceUnit}

/-! ## What is held -/

/-- A type or an expression, each of which may be inside the other. -/
inductive Part where
  | type (τ : Ty)
  | expression (e : Expr)

/-- What stands directly in a type. -/
def Ty.parts : Ty → List Part
  | .reference t | .qualified t _ | .pointer t | .array t _ | .sequence t => [.type t]
  | .decltype e => [.expression e]
  | .function parameters result => .type result :: parameters.map .type
  | .void | .bool | .integer _ _ | .float _ | .auto | .decltypeAuto | .named _ _ _ | .metatype
  | .deferred _ => []

def Node.parts : Node → List Part
  | .unary _ e | .converted _ e => [.expression e]
  | .binary _ l r | .assign l r => [.expression l, .expression r]
  | .call callee arguments => .expression callee :: arguments.map .expression
  | .deferred _ | .boolean _ | .integer _ | .float _ | .name _ _ => []

/-- What stands directly in a type or an expression, the type of an expression included. -/
def Part.parts : Part → List Part
  | .type τ => τ.parts
  | .expression e => .type e.type :: e.node.parts

/-- What a declaration states itself. Its parameters are declarations of their own. -/
def Declared.parts : Declared → List Part
  | .object _ type initializer => .type type :: initializer.toList.map .expression
  | .parameter type | .super type => [.type type]
  | .callable _ c => .type c.result :: .type c.type :: c.body.expressions.map .expression
  | .classDecl _ kind body => .type kind :: (Stmt.expressionsIn body).map .expression
  | .typeParameter => []

theorem Declared.mem_parts_of_ownType? {d : Decl} {type : Ty} (own : d.ownType? = some type) :
    .type type ∈ d.kind.parts := by
  cases kind : d.kind <;> simp_all [Decl.ownType?, Decl.typeIn?, parts]

def SourceUnit.parts (u : SourceUnit) : List Part := (Stmt.expressionsIn u.body).map .expression

/-- What can be reached from a part, at any depth. -/
def Part.Reaches : Part → Part → Prop := Relation.ReflTransGen fun p q => q ∈ p.parts

/-- A declaration or a unit states a part. -/
def SymbolTable.States (t : SymbolTable) (us : List SourceUnit) (p : Part) : Prop :=
  (∃ id, p ∈ (t.decl id).kind.parts) ∨ ∃ u ∈ us, p ∈ u.parts

/-- The outermost layer of a type may stand where it does. -/
def Ty.LayerFits : Ty → Prop
  | .reference target => target.isReference = false
  | .qualified inner q => inner.isReference = false ∧ inner.isQualified = false ∧ q ≠ .empty
  | _ => True

/-! ## What is kept -/

/-- A type that is in normal form once it has been read, or an expression in which all types are in normal form
once it has been read and that has no type before. -/
def Part.Kept : Part → Prop
  | .type τ => τ.Sound
  | .expression e => e.Normal ∨ e.excerpt?.isSome = true ∧ e.type = .auto

theorem Ty.Normal.layerFits {type : Ty} (h : type.Normal) : type.LayerFits := by
  cases type with
  | reference target => exact h.2
  | qualified inner q => exact ⟨h.2.1.reference, h.2.1.qualified, h.2.2⟩
  | _ => trivial

theorem Ty.Sound.layerFits {type : Ty} (h : type.Sound) : type.LayerFits := by
  rcases h with deferred | normal
  · cases type with
    | deferred f => trivial
    | _ => cases deferred
  · exact normal.layerFits

theorem Ty.Normal.parts {type : Ty} (h : type.Normal) : ∀ p ∈ type.parts, p.Kept := by
  cases type with
  | reference t => exact List.forall_mem_singleton.mpr (.inr h.1)
  | qualified t q => exact List.forall_mem_singleton.mpr (.inr h.1)
  | pointer t | array t n | sequence t =>
    have inner : t.Normal := h
    exact List.forall_mem_singleton.mpr (.inr inner)
  | decltype e => exact List.forall_mem_singleton.mpr (.inl h.1)
  | function parameters result =>
    refine List.forall_mem_cons.mpr ⟨.inr h.2, List.forall_mem_map.mpr fun t member => ?_⟩
    exact .inr (normalAll_iff.mp h.1 t member)
  | _ => exact List.forall_mem_nil _

theorem Node.Normal.parts {n : Node} (h : n.Normal) : ∀ p ∈ n.parts, p.Kept := by
  cases n with
  | unary op e | converted conversion e =>
    have inner : e.Normal := h
    exact List.forall_mem_singleton.mpr (.inl inner)
  | binary op l r | assign l r =>
    have both : l.Normal ∧ r.Normal := h
    exact List.forall_mem_cons.mpr ⟨.inl both.1, List.forall_mem_singleton.mpr (.inl both.2)⟩
  | call callee arguments =>
    refine List.forall_mem_cons.mpr ⟨.inl h.1, List.forall_mem_map.mpr fun e member => ?_⟩
    exact .inl (Expr.normalAll_iff.mp h.2 e member)
  | _ => exact List.forall_mem_nil _

/-- What is kept has only such parts: what has not been read has none but the type it lacks. -/
theorem Part.Kept.parts {p : Part} (h : p.Kept) : ∀ q ∈ p.parts, q.Kept := by
  cases p with
  | type τ =>
    rcases h with deferred | normal
    · cases τ with
      | deferred f => exact List.forall_mem_nil _
      | _ => cases deferred
    · exact normal.parts
  | expression e =>
    obtain ⟨node, type, span⟩ := e
    rcases h with normal | ⟨unread, rfl⟩
    · exact List.forall_mem_cons.mpr ⟨.inr normal.2, normal.1.parts⟩
    · cases node with
      | deferred f => exact List.forall_mem_singleton.mpr (.inr trivial)
      | _ => cases unread

theorem Part.Kept.reaches {p q : Part} (h : p.Kept) (reaches : p.Reaches q) : q.Kept := by
  induction reaches with
  | refl => exact h
  | tail _ member ih => exact ih.parts _ member

/-- An expression that is kept is read as a value of a type that is neither a reference nor qualified. -/
theorem Part.Kept.isValue_asValue {e : Expr} (h : (Part.expression e).Kept) : e.asValue.type.IsValue := by
  rw [Expr.type_asValue]
  rcases h with normal | ⟨-, untyped⟩
  · exact normal.type.isValue_valueType
  · rw [untyped]
    exact ⟨rfl, rfl⟩

/-! ## What is stated -/

/-- An expression that is sound and lies in some stretch is kept. -/
theorem Expr.Sound.kept {e : Expr} (sound : e.Sound t) {L : Layout} {n : Nat}
    (lies : ∃ lo hi, e.LiesIn L n lo hi) : (Part.expression e).Kept := by
  obtain ⟨lo, hi, lies⟩ := lies
  cases excerpt : e.excerpt? with
  | none => exact .inl (sound excerpt).normal
  | some f =>
    rw [Expr.LiesIn, excerpt] at lies
    exact .inr ⟨by rw [excerpt]; rfl, lies.2⟩

theorem Declared.kept {k : Declared} (sound : k.Sound t) {L : Layout} {n lo hi : Nat}
    (lies : k.LiesIn L n lo hi) : ∀ p ∈ k.parts, p.Kept := by
  cases k with
  | object sort type initializer =>
    refine List.forall_mem_cons.mpr ⟨sound.declared, List.forall_mem_map.mpr fun e member => ?_⟩
    have same := Option.mem_toList.mp member
    exact Expr.Sound.kept (fun read => (sound.initializes e same read).well) ⟨lo, hi, lies.2 e same⟩
  | parameter type | super type => exact List.forall_mem_singleton.mpr sound
  | callable sort c =>
    have known : c.Sound t := sound
    have inside : c.LiesIn L n lo hi := lies
    refine List.forall_mem_cons.mpr ⟨known.result, List.forall_mem_cons.mpr ⟨?_, ?_⟩⟩
    · rcases known.type with untyped | signed
      · exact .inr (untyped ▸ trivial)
      · exact .inr signed.normal_type
    · exact List.forall_mem_map.mpr fun e member => (known.body e member).kept (inside.body.expressions e member)
  | classDecl sort kind body =>
    exact List.forall_mem_cons.mpr ⟨sound.1, List.forall_mem_map.mpr fun e member =>
      (sound.2 e member).kept (lies.2.expressions e member)⟩
  | typeParameter => exact List.forall_mem_nil _

theorem Reached.kept (h : Reached t us) {p : Part} (states : t.States us p) : p.Kept := by
  obtain ⟨sound, known⟩ := h.sound
  obtain ⟨-, lies, units⟩ := h.tidy
  rcases states with ⟨id, member⟩ | ⟨u, inside, member⟩
  · exact Declared.kept (sound.decls id) (lies id) p member
  · obtain ⟨e, stated, rfl⟩ := List.mem_map.mp member
    exact (known u inside e stated).kept ((units u inside).expressions e stated)

/-- Wherever sources are read and passes are run over what has been read, well or not, the layers of all types stay
in order: of those that are declared, those of all expressions and those inside of them. So every expression can
be read as a value, of a type that is neither a reference nor qualified. -/
theorem layerFits_of_reached (h : Reached t us) {p : Part} (states : t.States us p) :
    (∀ type, p.Reaches (.type type) → type.LayerFits) ∧
      ∀ e, p.Reaches (.expression e) → e.asValue.type.IsValue :=
  ⟨fun _ reaches => Ty.Sound.layerFits ((h.kept states).reaches reaches),
    fun _ reaches => ((h.kept states).reaches reaches).isValue_asValue⟩

/-- A reference to what a reference is declared as, qualifiers on another, and a type that nothing declares. -/
def layeredReferences : List Token :=
  (Token.scan "var x: int32 const&; var y: decltype(x)& = x; var z: decltype(x) volatile; var w: nothing = x;".toList
    "layers").toOption.getD []

/-- The references do not pile up and the qualifiers stay outside of them, although one declaration fails. -/
theorem layerFits_of_layeredReferences : ∃ t us type e, Reached t us ∧
    (t.decl ⟨3⟩).ownType?.map (·.isDeferred) = some true ∧ t.States us (.type type) ∧
    type.shown = "int32 const&" ∧ t.States us (.expression e) ∧ e.type.shown = "int32 const&" ∧
    e.asValue.type.shown = "int32" ∧ type.LayerFits ∧ e.asValue.type.IsValue := by
  have ran : SourceUnit.resolved? layeredReferences (fun t =>
      ((t.decl ⟨3⟩).ownType?.map (·.isDeferred), (t.decl ⟨2⟩).ownType?.map (·.shown),
        (t.decl ⟨1⟩).initializer?.map fun e => (e.type.shown, e.asValue.type.shown))) =
      some (some true, some "int32 const&", some ("int32 const&", "int32")) := by
    unfold layeredReferences
    rewrite [String.toList_ofList]
    decide +kernel
  obtain ⟨t, us, reached, seen⟩ := Reached.exists_of_resolved? ran
  obtain ⟨failed, seen⟩ := Prod.mk.inj seen
  obtain ⟨declared, initialized⟩ := Prod.mk.inj seen
  obtain ⟨type, own, shown⟩ := Option.map_eq_some_iff.mp declared
  obtain ⟨e, init, read⟩ := Option.map_eq_some_iff.mp initialized
  obtain ⟨typed, value⟩ := Prod.mk.inj read
  have states : t.States us (.type type) := .inl ⟨⟨2⟩, Declared.mem_parts_of_ownType? own⟩
  have holds : t.States us (.expression e) := by
    obtain ⟨sort, τ, kind⟩ := Decl.kind_of_initializer? init
    exact .inl ⟨⟨1⟩, by simp [kind, Declared.parts]⟩
  exact ⟨t, us, type, e, reached, failed, states, shown, holds, typed, value,
    (layerFits_of_reached reached states).1 type .refl, (layerFits_of_reached reached holds).2 e .refl⟩

end Deferral
