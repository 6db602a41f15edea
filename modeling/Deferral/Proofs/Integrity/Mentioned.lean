import Deferral.Proofs.Layout.Table

/-!
# What is mentioned has been declared

Types, expressions, statements and declarations mention declarations by their numbers. A layout that says
nothing about places says that all of those numbers are numbers of declarations in the table.
-/

namespace Deferral

/-! ## Mentions -/

mutual

/-- The declarations that a type mentions, in the expressions in it too. -/
def Ty.mentions : Ty → List DeclId
  | .named _ id _ => [id]
  | .decltype e => e.mentions
  | .function parameters result => Ty.mentionsIn parameters ++ result.mentions
  | .reference t | .qualified t _ | .pointer t | .array t _ | .sequence t => t.mentions
  | .void | .bool | .integer _ _ | .float _ | .auto | .decltypeAuto | .metatype | .deferred _ => []

def Ty.mentionsIn : List Ty → List DeclId
  | [] => []
  | t :: rest => t.mentions ++ Ty.mentionsIn rest

def Node.mentions : Node → List DeclId
  | .name id _ => [id]
  | .unary _ e | .converted _ e => e.mentions
  | .binary _ l r | .assign l r => l.mentions ++ r.mentions
  | .call callee arguments => callee.mentions ++ Expr.mentionsIn arguments
  | .deferred _ | .boolean _ | .integer _ | .float _ => []

/-- The declarations that an expression mentions, in its nodes and in their types. What has been set aside
mentions none. -/
def Expr.mentions : Expr → List DeclId
  | ⟨node, type, _⟩ => node.mentions ++ type.mentions

def Expr.mentionsIn : List Expr → List DeclId
  | [] => []
  | e :: rest => e.mentions ++ Expr.mentionsIn rest

end

/-- The declarations that statements mention: those they state and those their expressions mention. -/
def Stmt.mentionsIn (body : List Stmt) : List DeclId :=
  declaresIn body ++ Expr.mentionsIn (expressionsIn body)

def Body.mentions (body : Body) : List DeclId := body.declares ++ Expr.mentionsIn body.expressions

/-- The declarations that a function mentions, its parameters and type parameters among them. -/
def Callable.mentions (c : Callable) : List DeclId :=
  c.parameters ++ (c.typeParameters ++ (c.result.mentions ++ (c.type.mentions ++ c.body.mentions)))

/-- The declarations that are mentioned in what a declaration declares. -/
def Declared.mentions : Declared → List DeclId
  | .object _ type initializer => type.mentions ++ Expr.mentionsIn initializer.toList
  | .parameter type | .super type => type.mentions
  | .callable _ c => c.mentions
  | .classDecl _ kind body => kind.mentions ++ Stmt.mentionsIn body
  | .typeParameter => []

section

variable {S : DeclId → Prop} {A : Position → Prop}

mutual

theorem Ty.IsMade.mentions : ∀ {t : Ty}, t.IsMade S → ∀ id ∈ t.mentions, S id
  | .named _ _ _, h => List.forall_mem_singleton.mpr h
  | .decltype _, h => Expr.IsMade.mentions h
  | .function _ _, h => List.forall_mem_append.mpr ⟨Ty.AllMade.mentions h.1, Ty.IsMade.mentions h.2⟩
  | .reference t, h | .qualified t _, h | .pointer t, h | .array t _, h | .sequence t, h =>
    Ty.IsMade.mentions (t := t) h
  | .deferred _, h => h.elim
  | .void, _ | .bool, _ | .integer _ _, _ | .float _, _ | .auto, _ | .decltypeAuto, _ =>
    List.forall_mem_nil _
  | .metatype, _ => List.forall_mem_nil _

theorem Ty.AllMade.mentions : ∀ {ts : List Ty}, Ty.AllMade S ts → ∀ id ∈ Ty.mentionsIn ts, S id
  | [], _ => List.forall_mem_nil _
  | _ :: _, h => List.forall_mem_append.mpr ⟨Ty.IsMade.mentions h.1, Ty.AllMade.mentions h.2⟩

theorem Node.IsMade.mentions : ∀ {A : Position → Prop} {n : Node}, n.IsMade S A →
    ∀ id ∈ n.mentions, S id
  | _, .name _ _, h => List.forall_mem_singleton.mpr h
  | _, .unary _ e, h | _, .converted _ e, h => Expr.IsMade.mentions (e := e) h
  | _, .binary _ _ _, h | _, .assign _ _, h =>
    List.forall_mem_append.mpr ⟨Expr.IsMade.mentions h.1, Expr.IsMade.mentions h.2⟩
  | _, .call _ _, h => List.forall_mem_append.mpr ⟨Expr.IsMade.mentions h.1, Expr.AllMade.mentions h.2⟩
  | _, .deferred _, h => h.elim
  | _, .boolean _, _ | _, .integer _, _ | _, .float _, _ => List.forall_mem_nil _

theorem Expr.IsMade.mentions : ∀ {A : Position → Prop} {e : Expr}, e.IsMade S A →
    ∀ id ∈ e.mentions, S id
  | _, ⟨_, _, _⟩, h => List.forall_mem_append.mpr ⟨Node.IsMade.mentions h.1, Ty.IsMade.mentions h.2.1⟩

theorem Expr.AllMade.mentions : ∀ {A : Position → Prop} {es : List Expr}, Expr.AllMade S A es →
    ∀ id ∈ Expr.mentionsIn es, S id
  | _, [], _ => List.forall_mem_nil _
  | _, _ :: _, h => List.forall_mem_append.mpr ⟨Expr.IsMade.mentions h.1, Expr.AllMade.mentions h.2⟩

end

end

theorem Expr.mem_mentionsIn {id : DeclId} {es : List Expr} :
    id ∈ mentionsIn es ↔ ∃ e ∈ es, id ∈ e.mentions := by
  induction es with
  | nil => simp [mentionsIn]
  | cons e rest ih => simp [mentionsIn, ih]

/-! ## In a stretch -/

section

variable {L : Layout} {n lo hi : Nat}

theorem Ty.LiesIn.mentions {type : Ty} (h : type.LiesIn L n lo hi) : ∀ id ∈ type.mentions, L.known n id := by
  cases type with
  | deferred f => exact List.forall_mem_nil _
  | _ => exact Ty.IsMade.mentions h

theorem Expr.LiesIn.mentions {e : Expr} (h : e.LiesIn L n lo hi) : ∀ id ∈ e.mentions, L.known n id := by
  obtain ⟨node, type, span⟩ := e
  cases node with
  | deferred f =>
    obtain rfl : type = .auto := h.2
    exact List.forall_mem_nil _
  | _ => exact Expr.IsMade.mentions h

namespace Stmt

mutual

theorem LiesIn.declares : ∀ {s : Stmt} {lo hi : Nat}, s.LiesIn L n lo hi →
    ∀ id ∈ s.declares, L.known n id
  | .block _ _ _, _, _, h => AllLieIn.declares h
  | .conditional _ _ _ _, _, _, ⟨_, _, _, _, _, _, onTrue, onFalse⟩ =>
    List.forall_mem_append.mpr ⟨LiesIn.declares onTrue, LiesBehindElse.declares onFalse⟩
  | .whileLoop _ body _, _, _, ⟨_, _, _, _, inner⟩ => LiesIn.declares (s := body) inner
  | .declaration _ _, _, _, h => List.forall_mem_singleton.mpr h.1
  | .returning _ _, _, _, _ | .yielding _ _, _, _, _ | .expression _, _, _, _ => List.forall_mem_nil _
  | .breaking _, _, _, _ | .continuing _, _, _, _ => List.forall_mem_nil _

theorem AllLieIn.declares : ∀ {body : List Stmt} {lo hi : Nat}, AllLieIn L n lo hi body →
    ∀ id ∈ declaresIn body, L.known n id
  | [], _, _, _ => List.forall_mem_nil _
  | _ :: _, _, _, ⟨_, _, _, first, rest⟩ =>
    List.forall_mem_append.mpr ⟨LiesIn.declares first, AllLieIn.declares rest⟩

theorem LiesBehindElse.declares : ∀ {onFalse : Option Stmt} {lo hi : Nat},
    LiesBehindElse L n lo hi onFalse → ∀ id ∈ declaresBehindElse onFalse, L.known n id
  | none, _, _, _ => List.forall_mem_nil _
  | some s, _, _, h => LiesIn.declares (s := s) h

end

mutual

theorem LiesIn.expressions : ∀ {s : Stmt} {lo hi : Nat}, s.LiesIn L n lo hi →
    ∀ e ∈ s.expressions, ∃ lo hi, e.LiesIn L n lo hi
  | .block _ _ _, _, _, h => AllLieIn.expressions h
  | .returning _ _, lo, hi, h => fun e member => ⟨lo, hi, h.2 e (Option.mem_toList.mp member)⟩
  | .yielding _ _, lo, hi, h | .expression _, lo, hi, h => List.forall_mem_singleton.mpr ⟨lo, hi, h⟩
  | .conditional _ _ _ _, _, _, ⟨_, _, _, _, _, condition, onTrue, onFalse⟩ =>
    List.forall_mem_cons.mpr ⟨⟨_, _, condition⟩,
      List.forall_mem_append.mpr ⟨LiesIn.expressions onTrue, LiesBehindElse.expressions onFalse⟩⟩
  | .whileLoop _ _ _, _, _, ⟨_, _, _, condition, body⟩ =>
    List.forall_mem_cons.mpr ⟨⟨_, _, condition⟩, LiesIn.expressions body⟩
  | .declaration _ _, _, _, _ | .breaking _, _, _, _ | .continuing _, _, _, _ => List.forall_mem_nil _

theorem AllLieIn.expressions : ∀ {body : List Stmt} {lo hi : Nat}, AllLieIn L n lo hi body →
    ∀ e ∈ expressionsIn body, ∃ lo hi, e.LiesIn L n lo hi
  | [], _, _, _ => List.forall_mem_nil _
  | _ :: _, _, _, ⟨_, _, _, first, rest⟩ =>
    List.forall_mem_append.mpr ⟨LiesIn.expressions first, AllLieIn.expressions rest⟩

theorem LiesBehindElse.expressions : ∀ {onFalse : Option Stmt} {lo hi : Nat},
    LiesBehindElse L n lo hi onFalse → ∀ e ∈ expressionsBehindElse onFalse, ∃ lo hi, e.LiesIn L n lo hi
  | none, _, _, _ => List.forall_mem_nil _
  | some s, _, _, h => LiesIn.expressions (s := s) h

end

end Stmt

/-- Expressions that all lie in some stretch mention what is known. -/
theorem mentionsIn_of_liesIn {es : List Expr} (h : ∀ e ∈ es, ∃ lo hi, e.LiesIn L n lo hi) :
    ∀ id ∈ Expr.mentionsIn es, L.known n id := by
  intro id member
  obtain ⟨e, inside, member⟩ := Expr.mem_mentionsIn.mp member
  obtain ⟨lo, hi, lies⟩ := h e inside
  exact lies.mentions id member

theorem Stmt.AllLieIn.mentions {body : List Stmt} (h : AllLieIn L n lo hi body) :
    ∀ id ∈ mentionsIn body, L.known n id :=
  List.forall_mem_append.mpr ⟨h.declares, mentionsIn_of_liesIn h.expressions⟩

theorem Body.LiesIn.declares {body : Body} (h : body.LiesIn L n lo hi) :
    ∀ id ∈ body.declares, L.known n id := by
  cases body with
  | statement s => exact Stmt.LiesIn.declares h
  | absent | expression e => exact List.forall_mem_nil _

theorem Body.LiesIn.expressions {body : Body} (h : body.LiesIn L n lo hi) :
    ∀ e ∈ body.expressions, ∃ lo hi, e.LiesIn L n lo hi := by
  cases body with
  | absent => exact List.forall_mem_nil _
  | statement s => exact Stmt.LiesIn.expressions h
  | expression e => exact List.forall_mem_singleton.mpr ⟨lo, hi, h⟩

theorem Body.LiesIn.mentions {body : Body} (h : body.LiesIn L n lo hi) :
    ∀ id ∈ body.mentions, L.known n id :=
  List.forall_mem_append.mpr ⟨h.declares, mentionsIn_of_liesIn h.expressions⟩

theorem Callable.LiesIn.mentions {c : Callable} (h : c.LiesIn L n lo hi) :
    ∀ id ∈ c.mentions, L.known n id :=
  List.forall_mem_append.mpr ⟨fun p member => (h.parameters p member).1,
    List.forall_mem_append.mpr ⟨h.typeParameters, List.forall_mem_append.mpr ⟨h.result.mentions,
      List.forall_mem_append.mpr ⟨h.type.mentions, h.body.mentions⟩⟩⟩⟩

/-- What lies in a stretch mentions only what is known. -/
theorem Declared.LiesIn.mentions {k : Declared} (h : k.LiesIn L n lo hi) :
    ∀ id ∈ k.mentions, L.known n id := by
  cases k with
  | object sort type initializer =>
    refine List.forall_mem_append.mpr ⟨h.1.mentions, mentionsIn_of_liesIn fun e member => ?_⟩
    exact ⟨lo, hi, h.2 e (Option.mem_toList.mp member)⟩
  | parameter type | super type => exact Ty.LiesIn.mentions h
  | callable sort c => exact Callable.LiesIn.mentions h
  | classDecl sort kind body => exact List.forall_mem_append.mpr ⟨h.1.mentions, h.2.mentions⟩
  | typeParameter => exact List.forall_mem_nil _

end

/-! ## A layout without places -/

namespace Layout

/-- All that this layout tells is which declarations are in the table. -/
def present : Layout where
  token _ := True
  captured _ := True
  apart _ := True
  low _ := 0
  high _ := 0
  known n id := id.index < n
  ordered _ := Nat.le_refl 0
  known_mono le lt := Nat.lt_of_lt_of_le lt le
  known_next n := Nat.lt_succ_self n

theorem within_present (lo hi : Nat) (p : Position) : present.Within lo hi p := ⟨trivial, .inl trivial⟩

theorem inside_present (lo hi lo' hi' : Nat) : present.Inside lo hi lo' hi' :=
  fun p _ => within_present lo' hi' p

end Layout

section

variable {n : Nat}

theorem Excerpt.liesIn_present (f : Excerpt) : f.LiesIn .present 0 0 :=
  ⟨trivial, Layout.within_present .., fun _ _ => Layout.within_present ..⟩

theorem Ty.liesIn_present_of_isDeferred {type : Ty} (deferred : type.isDeferred = true) :
    type.LiesIn .present n 0 0 := by
  cases type with
  | deferred f => exact f.liesIn_present
  | _ => cases deferred

theorem Expr.liesIn_present {e : Expr} (aside : ∃ f, e = .deferred f) : e.LiesIn .present n 0 0 := by
  obtain ⟨f, rfl⟩ := aside
  exact ⟨f.liesIn_present, rfl⟩

/-- What has just been declared, the initializer of an object set aside. -/
structure Declared.IsSetAside (k : Declared) : Prop where
  unread : k.IsUnread
  aside : ∀ sort type e, k = .object sort type (some e) → ∃ f, e = .deferred f

namespace Declared.IsSetAside

theorem object {sort : ObjectSort} {type : Ty} {init : Option Expr} (deferred : type.isDeferred = true)
    (aside : ∀ e, init = some e → ∃ f, e = .deferred f)
    (initialized : sort = .constant → init.isSome = true) : (Declared.object sort type init).IsSetAside := by
  refine ⟨⟨deferred, fun e same => ?_, initialized⟩, fun _ _ e same => ?_⟩
  · obtain ⟨f, rfl⟩ := aside e same
    rfl
  · exact aside e (Declared.object.inj same).2.2

theorem parameter {type : Ty} (deferred : type.isDeferred = true) : (Declared.parameter type).IsSetAside :=
  ⟨deferred, fun _ _ _ same => by cases same⟩

theorem super {type : Ty} (deferred : type.isDeferred = true) : (Declared.super type).IsSetAside :=
  ⟨deferred, fun _ _ _ same => by cases same⟩

theorem announced (sort : CallableSort) : (Declared.callable sort .announced).IsSetAside :=
  ⟨rfl, fun _ _ _ same => by cases same⟩

theorem classDecl (sort : ClassSort) {kind : Ty} (known : kind.isDeferred = true ∨ kind = .metatype) :
    (Declared.classDecl sort kind []).IsSetAside :=
  ⟨⟨known, rfl⟩, fun _ _ _ same => by cases same⟩

end Declared.IsSetAside

/-- What has just been declared mentions nothing. -/
theorem Declared.IsSetAside.liesIn_present {k : Declared} (aside : k.IsSetAside) :
    k.LiesIn .present n 0 0 := by
  have h := aside.unread
  cases k with
  | object sort type initializer =>
    refine ⟨Ty.liesIn_present_of_isDeferred h.1, fun e same => ?_⟩
    subst same
    exact Expr.liesIn_present (aside.aside sort type e rfl)
  | parameter type | super type => exact Ty.liesIn_present_of_isDeferred h
  | callable sort c =>
    obtain rfl : c = .announced := h
    exact ⟨List.forall_mem_nil _, List.forall_mem_nil _, trivial, trivial, trivial⟩
  | classDecl sort kind body =>
    obtain ⟨unread | rfl, rfl⟩ := h
    · exact ⟨Ty.liesIn_present_of_isDeferred unread, trivial⟩
    · exact ⟨trivial, trivial⟩
  | typeParameter => exact h.elim

theorem Declared.LiesIn.decl {d : Decl} {id : DeclId} (h : d.kind.LiesIn .present n 0 0) :
    d.LiesIn .present n id :=
  ⟨h, fun _ => ⟨fun _ _ => trivial, Layout.within_present ..⟩, fun _ _ _ => trivial⟩

end

end Deferral
