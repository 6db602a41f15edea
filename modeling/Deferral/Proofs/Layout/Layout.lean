import Deferral.Proofs.Phrase.Tokens
import Deferral.Proofs.Safety.Furnished
import Deferral.Proofs.Safety.Resolving

/-!
# Layouts

The declarations of a source lie in it side by side or one inside the other, and what has been set aside
of a declaration lies where the declaration does. Statements that follow each other lie one behind the
other. Some stretches lie apart: what is found in them may be reported out of turn.
-/

namespace Deferral

/-- How a source is laid out. Tokens start at the positions `token`, the excerpts of it are those that
are `captured`, and a declaration lies from offset `low` up to `high`. `known n` says what a table of `n`
declarations may name. -/
structure Layout where
  token : Position → Prop
  captured : Excerpt → Prop
  apart : Position → Prop
  low : DeclId → Nat
  high : DeclId → Nat
  known : Nat → DeclId → Prop
  ordered : ∀ id, low id ≤ high id
  known_mono : ∀ {n m : Nat} {id : DeclId}, n ≤ m → known n id → known m id
  known_next : ∀ n : Nat, known (n + 1) ⟨n⟩

namespace Layout

/-! ## Stretches -/

section

variable (L : Layout)

/-- A token starts in a stretch, or apart from it all. -/
def Within (lo hi : Nat) (p : Position) : Prop :=
  L.token p ∧ (L.apart p ∨ lo ≤ p.offset ∧ p.offset < hi)

/-- Nothing of one stretch is outside another. -/
def Inside (lo hi lo' hi' : Nat) : Prop := ∀ p, L.Within lo hi p → L.Within lo' hi' p

/-- A stretch that lies apart. -/
def Apart (lo hi : Nat) : Prop := ∀ p, L.Within lo hi p → L.apart p

end

variable {L : Layout} {lo hi lo' hi' mid n m : Nat}

theorem Inside.refl (L : Layout) (lo hi : Nat) : L.Inside lo hi lo hi := fun _ => id

theorem Inside.trans {lo'' hi'' : Nat} (h : L.Inside lo hi lo' hi') (h' : L.Inside lo' hi' lo'' hi'') :
    L.Inside lo hi lo'' hi'' := fun p within => h' p (h p within)

theorem inside_of_le (low : lo' ≤ lo) (high : hi ≤ hi') : L.Inside lo hi lo' hi' :=
  fun p ⟨token, place⟩ => ⟨token, place.imp_right fun h => ⟨by omega, by omega⟩⟩

theorem Apart.inside (h : L.Apart lo hi) (lo' hi' : Nat) : L.Inside lo hi lo' hi' :=
  fun p within => ⟨within.1, .inl (h p within)⟩

/-- A stretch inside another one is cut, and the other one with it. -/
theorem Inside.split (h : L.Inside lo hi lo' hi') (le : lo' ≤ hi') (low : lo ≤ mid) (high : mid ≤ hi) :
    ∃ mid', lo' ≤ mid' ∧ mid' ≤ hi' ∧ L.Inside lo mid lo' mid' ∧ L.Inside mid hi mid' hi' := by
  refine ⟨max lo' (min mid hi'), by omega, by omega, fun p within => ?_, fun p within => ?_⟩
  · obtain ⟨token, place⟩ := h p (inside_of_le (Nat.le_refl _) high p within)
    rcases place with apart | place
    · exact ⟨token, .inl apart⟩
    · exact ⟨token, within.2.imp_right fun before => ⟨place.1, by omega⟩⟩
  · obtain ⟨token, place⟩ := h p (inside_of_le low (Nat.le_refl _) p within)
    rcases place with apart | place
    · exact ⟨token, .inl apart⟩
    · exact ⟨token, within.2.imp_right fun behind => ⟨by omega, place.2⟩⟩

/-! ## Diagnostics -/

/-- A diagnostic that may come of a stretch: one of names, types or values where a token of it starts,
or one of an excerpt in it. -/
inductive Admits (L : Layout) (lo hi : Nat) (d : Diagnostic) : Prop
  | internal : d.cause.isInternal = true → Admits L lo hi d
  | plain : d.IsPlainAt (L.Within lo hi) → Admits L lo hi d
  | excerpt (f : Excerpt) : (∃ what detail, d.cause = .badExcerpt what detail) → L.captured f →
      d.position = f.position → L.Within lo hi d.position → Admits L lo hi d

theorem Admits.mono {d : Diagnostic} (h : L.Admits lo hi d) (inside : L.Inside lo hi lo' hi') :
    L.Admits lo' hi' d := by
  cases h with
  | internal broken => exact .internal broken
  | plain h => exact .plain ⟨h.plain, inside _ h.place⟩
  | excerpt f cause captured place within => exact .excerpt f cause captured place (inside _ within)

theorem Admits.within {d : Diagnostic} (h : L.Admits lo hi d) (external : d.cause.isInternal = false) :
    L.Within lo hi d.position := by
  cases h with
  | internal broken => rw [broken] at external; cases external
  | plain h => exact h.place
  | excerpt _ _ _ _ within => exact within

theorem cause_within (subject : Subject) (d : Diagnostic) : (d.within subject).cause = d.cause := by
  unfold Diagnostic.within
  split <;> rfl

theorem position_within (subject : Subject) (d : Diagnostic) :
    (d.within subject).position = d.position := by
  unfold Diagnostic.within
  split <;> rfl

/-- Naming the subject makes no difference to where a diagnostic may come from. -/
theorem Admits.against {d : Diagnostic} (h : L.Admits lo hi d) (subject : Subject) :
    L.Admits lo hi (d.within subject) := by
  cases h with
  | internal broken => exact .internal (by rwa [cause_within])
  | plain h => exact .plain ⟨by rw [cause_within]; exact h.plain, by rw [position_within]; exact h.place⟩
  | excerpt f cause captured place within =>
    exact .excerpt f (by rwa [cause_within]) captured (by rwa [position_within]) (by rwa [position_within])

/-- Whether a diagnostic is to be reported in its turn. -/
def IsTimely (L : Layout) (d : Diagnostic) : Prop := d.cause.isInternal = false ∧ ¬ L.apart d.position

theorem isTimely_within {subject : Subject} {d : Diagnostic} :
    L.IsTimely (d.within subject) ↔ L.IsTimely d := by
  unfold IsTimely
  rw [cause_within, position_within]

/-- Diagnostics that may come of a stretch, in the order of their places. -/
structure Lists (L : Layout) (lo hi : Nat) (δ : List Diagnostic) : Prop where
  admits : ∀ d ∈ δ, L.Admits lo hi d
  order : δ.Pairwise fun d d' => L.IsTimely d → L.IsTimely d' → d.position.offset ≤ d'.position.offset

namespace Lists

variable {δ δ' : List Diagnostic} {d : Diagnostic}

theorem nil (L : Layout) (lo hi : Nat) : L.Lists lo hi [] := ⟨List.forall_mem_nil _, .nil⟩

theorem single (h : L.Admits lo hi d) : L.Lists lo hi [d] :=
  ⟨List.forall_mem_singleton.mpr h, List.pairwise_singleton ..⟩

theorem mono (h : L.Lists lo hi δ) (inside : L.Inside lo hi lo' hi') : L.Lists lo' hi' δ :=
  ⟨fun d member => (h.admits d member).mono inside, h.order⟩

/-- What comes of one stretch is listed in front of what comes of the next one. -/
theorem append (h : L.Lists lo mid δ) (h' : L.Lists mid hi δ') (low : lo ≤ mid) (high : mid ≤ hi) :
    L.Lists lo hi (δ ++ δ') := by
  refine ⟨List.forall_mem_append.mpr ⟨(h.mono (inside_of_le (Nat.le_refl _) high)).admits,
    (h'.mono (inside_of_le low (Nat.le_refl _))).admits⟩,
    List.pairwise_append.mpr ⟨h.order, h'.order, ?_⟩⟩
  intro d member d' member' timely timely'
  have before := ((h.admits d member).within timely.1).2.resolve_left timely.2
  have behind := ((h'.admits d' member').within timely'.1).2.resolve_left timely'.2
  omega

/-- The last diagnostic names another subject. -/
theorem against_last {fault? : Option Diagnostic} (h : L.Lists lo hi (δ ++ fault?.toList))
    (subject : Subject) : L.Lists lo hi (δ ++ (fault?.map (·.within subject)).toList) := by
  cases fault? with
  | none => exact h
  | some d =>
    obtain ⟨admits, order⟩ := h
    obtain ⟨front, last⟩ := List.forall_mem_append.mp admits
    obtain ⟨inner, -, across⟩ := List.pairwise_append.mp order
    refine ⟨List.forall_mem_append.mpr ⟨front, List.forall_mem_singleton.mpr
      ((last d (List.mem_singleton_self d)).against subject)⟩,
      List.pairwise_append.mpr ⟨inner, List.pairwise_singleton .., fun d' member d'' same => ?_⟩⟩
    obtain rfl := List.mem_singleton.mp same
    rw [position_within, isTimely_within]
    exact across d' member d (List.mem_singleton_self d)

end Lists

end Layout

/-! ## What lies in a stretch -/

section

variable (L : Layout) (n lo hi : Nat)

/-- An excerpt in a stretch. -/
structure Excerpt.LiesIn (f : Excerpt) : Prop where
  captured : L.captured f
  start : L.Within lo hi f.position
  tokens : ∀ t ∈ f.tokens, L.Within lo hi t.span.start

/-- A type that is an excerpt in a stretch, or has been read. -/
def Ty.LiesIn : Ty → Prop
  | .deferred f => f.LiesIn L lo hi
  | type => type.IsMade (L.known n)

/-- An expression in a stretch, read or not. What has not been read has no type yet. -/
def Expr.LiesIn (e : Expr) : Prop :=
  match e.excerpt? with
  | some f => f.LiesIn L lo hi ∧ e.type = .auto
  | none => e.IsMade (L.known n) (L.Within lo hi)

end

mutual

/-- A statement in a stretch: its parts follow each other, and the declarations it states lie in it. -/
def Stmt.LiesIn (L : Layout) (n : Nat) : (lo hi : Nat) → Stmt → Prop
  | lo, hi, .block _ body _ => AllLieIn L n lo hi body
  | lo, hi, .returning value span =>
    L.Within lo hi span.start ∧ ∀ e, value = some e → e.LiesIn L n lo hi
  | lo, hi, .yielding e _ | lo, hi, .expression e => e.LiesIn L n lo hi
  | lo, hi, .conditional e onTrue onFalse _ => ∃ mid mid', lo ≤ mid ∧ mid ≤ mid' ∧ mid' ≤ hi ∧
      e.LiesIn L n lo mid ∧ onTrue.LiesIn L n mid mid' ∧ LiesBehindElse L n mid' hi onFalse
  | lo, hi, .whileLoop e body _ => ∃ mid, lo ≤ mid ∧ mid ≤ hi ∧ e.LiesIn L n lo mid ∧
      body.LiesIn L n mid hi
  | _, _, .breaking _ | _, _, .continuing _ => True
  | lo, hi, .declaration id _ => L.known n id ∧ L.Inside (L.low id) (L.high id) lo hi

def Stmt.AllLieIn (L : Layout) (n : Nat) : (lo hi : Nat) → List Stmt → Prop
  | _, _, [] => True
  | lo, hi, s :: rest => ∃ mid, lo ≤ mid ∧ mid ≤ hi ∧ s.LiesIn L n lo mid ∧
      AllLieIn L n mid hi rest

def Stmt.LiesBehindElse (L : Layout) (n : Nat) : (lo hi : Nat) → Option Stmt → Prop
  | _, _, none => True
  | lo, hi, some s => s.LiesIn L n lo hi

end

section

variable (L : Layout) (n lo hi : Nat)

def Body.LiesIn : Body → Prop
  | .absent => True
  | .statement s => s.LiesIn L n lo hi
  | .expression e => e.LiesIn L n lo hi

/-- A function in a stretch, with its parameters. -/
structure Callable.LiesIn (c : Callable) : Prop where
  parameters : ∀ p ∈ c.parameters, L.known n p ∧ L.Inside (L.low p) (L.high p) lo hi
  typeParameters : ∀ p ∈ c.typeParameters, L.known n p
  result : c.result.LiesIn L n lo hi
  type : c.type.IsMade (L.known n)
  body : c.body.LiesIn L n lo hi

def Declared.LiesIn : Declared → Prop
  | .object _ type initializer => type.LiesIn L n lo hi ∧ ∀ e, initializer = some e → e.LiesIn L n lo hi
  | .parameter type | .super type => type.LiesIn L n lo hi
  | .callable _ c => c.LiesIn L n lo hi
  | .classDecl _ kind body => kind.LiesIn L n lo hi ∧ Stmt.AllLieIn L n lo hi body
  | .typeParameter => True

end

/-- A declaration in its own stretch. Constants and extensions lie apart: a constant is defined when it
is first needed, and what is in an extension belongs to its class. -/
structure Decl.LiesIn (L : Layout) (n : Nat) (id : DeclId) (d : Decl) : Prop where
  kind : d.kind.LiesIn L n (L.low id) (L.high id)
  constant : d.subject = .constDecl →
    L.Apart (L.low id) (L.high id) ∧ L.Within (L.low id) (L.high id) d.span.start
  extension : d.subject = .extension → L.Apart (L.low id) (L.high id)

/-! ## Wider stretches -/

section

variable {L : Layout} {n m lo hi lo' hi' : Nat}

open Layout

theorem Excerpt.LiesIn.mono {f : Excerpt} (h : f.LiesIn L lo hi) (inside : L.Inside lo hi lo' hi') :
    f.LiesIn L lo' hi' :=
  ⟨h.captured, inside _ h.start, fun t member => inside _ (h.tokens t member)⟩

theorem Ty.LiesIn.mono {type : Ty} (h : type.LiesIn L n lo hi) (le : n ≤ m)
    (inside : L.Inside lo hi lo' hi') : type.LiesIn L m lo' hi' := by
  cases type with
  | deferred f => exact Excerpt.LiesIn.mono h inside
  | _ => exact Ty.IsMade.mono (fun _ => L.known_mono le) h

theorem Ty.IsMade.liesIn {type : Ty} (h : type.IsMade (L.known n)) (lo hi : Nat) :
    type.LiesIn L n lo hi := by
  cases type with
  | deferred f => exact h.elim
  | _ => exact h

/-- A type that has been read is made of what is known. -/
theorem Ty.LiesIn.isMade {type : Ty} (h : type.LiesIn L n lo hi) (read : type.isDeferred = false) :
    type.IsMade (L.known n) := by
  cases type with
  | deferred f => cases read
  | _ => exact h

theorem Expr.LiesIn.mono {e : Expr} (h : e.LiesIn L n lo hi) (le : n ≤ m)
    (inside : L.Inside lo hi lo' hi') : e.LiesIn L m lo' hi' := by
  unfold Expr.LiesIn at h ⊢
  split at h
  · exact ⟨Excerpt.LiesIn.mono h.1 inside, h.2⟩
  · exact Expr.IsMade.mono (fun _ => L.known_mono le) inside h

theorem Expr.IsMade.liesIn {e : Expr} (h : e.IsMade (L.known n) (L.Within lo hi)) :
    e.LiesIn L n lo hi := by
  unfold Expr.LiesIn
  rw [h.not_excerpt]
  exact h

namespace Stmt

mutual

theorem LiesIn.mono (le : n ≤ m) : ∀ {s : Stmt} {lo hi lo' hi' : Nat}, L.Inside lo hi lo' hi' → lo' ≤ hi' →
    s.LiesIn L n lo hi → s.LiesIn L m lo' hi'
  | .block _ _ _, _, _, _, _, inside, ordered, h => AllLieIn.mono le inside ordered h
  | .returning _ _, _, _, _, _, inside, _, h =>
    ⟨inside _ h.1, fun e same => (h.2 e same).mono le inside⟩
  | .yielding e _, _, _, _, _, inside, _, h | .expression e, _, _, _, _, inside, _, h =>
    Expr.LiesIn.mono (e := e) h le inside
  | .conditional _ _ _ _, _, _, _, _, inside, ordered, ⟨_, _, le₁, le₂, le₃, condition, onTrue, onFalse⟩ =>
    have ⟨_, le₁', ordered', front, behind⟩ := inside.split ordered le₁ (Nat.le_trans le₂ le₃)
    have ⟨_, le₂', le₃', middle, last⟩ := behind.split ordered' le₂ le₃
    ⟨_, _, le₁', le₂', le₃', condition.mono le front, LiesIn.mono le middle le₂' onTrue,
      LiesBehindElse.mono le last le₃' onFalse⟩
  | .whileLoop _ _ _, _, _, _, _, inside, ordered, ⟨_, le₁, le₂, condition, body⟩ =>
    have ⟨_, le₁', le₂', front, behind⟩ := inside.split ordered le₁ le₂
    ⟨_, le₁', le₂', condition.mono le front, LiesIn.mono le behind le₂' body⟩
  | .breaking _, _, _, _, _, _, _, _ | .continuing _, _, _, _, _, _, _, _ => trivial
  | .declaration _ _, _, _, _, _, inside, _, h => ⟨L.known_mono le h.1, h.2.trans inside⟩

theorem AllLieIn.mono (le : n ≤ m) : ∀ {body : List Stmt} {lo hi lo' hi' : Nat},
    L.Inside lo hi lo' hi' → lo' ≤ hi' → AllLieIn L n lo hi body → AllLieIn L m lo' hi' body
  | [], _, _, _, _, _, _, _ => trivial
  | _ :: _, _, _, _, _, inside, ordered, ⟨_, le₁, le₂, first, rest⟩ =>
    have ⟨_, le₁', le₂', front, behind⟩ := inside.split ordered le₁ le₂
    ⟨_, le₁', le₂', LiesIn.mono le front le₁' first, AllLieIn.mono le behind le₂' rest⟩

theorem LiesBehindElse.mono (le : n ≤ m) : ∀ {onFalse : Option Stmt} {lo hi lo' hi' : Nat},
    L.Inside lo hi lo' hi' → lo' ≤ hi' → LiesBehindElse L n lo hi onFalse →
    LiesBehindElse L m lo' hi' onFalse
  | none, _, _, _, _, _, _, _ => trivial
  | some s, _, _, _, _, inside, ordered, h => LiesIn.mono le (s := s) inside ordered h

end

/-- Statements that lie apart may be put behind others. -/
theorem AllLieIn.append {body rest : List Stmt} (ordered : lo ≤ hi) (h : AllLieIn L n lo hi body)
    (h' : AllLieIn L n lo' hi' rest) (apart : L.Apart lo' hi') : AllLieIn L n lo hi (body ++ rest) := by
  induction body generalizing lo with
  | nil => exact h'.mono (Nat.le_refl n) (apart.inside lo hi) ordered
  | cons s body ih =>
    obtain ⟨mid, le₁, le₂, first, others⟩ := h
    exact ⟨mid, le₁, le₂, first, ih le₂ others⟩

/-- Statements may be left out. -/
theorem AllLieIn.filter {body : List Stmt} (ordered : lo ≤ hi) (h : AllLieIn L n lo hi body)
    (keep : Stmt → Bool) : AllLieIn L n lo hi (body.filter keep) := by
  induction body generalizing lo with
  | nil => exact h
  | cons s rest ih =>
    obtain ⟨mid, le₁, le₂, first, others⟩ := h
    rw [List.filter_cons]
    split
    · exact ⟨mid, le₁, le₂, first, ih le₂ others⟩
    · exact AllLieIn.mono (Nat.le_refl n) (inside_of_le le₁ (Nat.le_refl hi)) ordered (ih le₂ others)

end Stmt

theorem Body.LiesIn.mono {body : Body} (h : body.LiesIn L n lo hi) (le : n ≤ m)
    (inside : L.Inside lo hi lo' hi') (ordered : lo' ≤ hi') : body.LiesIn L m lo' hi' := by
  cases body with
  | absent => trivial
  | statement s => exact Stmt.LiesIn.mono le inside ordered h
  | expression e => exact Expr.LiesIn.mono h le inside

theorem Callable.LiesIn.mono {c : Callable} (h : c.LiesIn L n lo hi) (le : n ≤ m)
    (inside : L.Inside lo hi lo' hi') (ordered : lo' ≤ hi') : c.LiesIn L m lo' hi' where
  parameters p member := ⟨L.known_mono le (h.parameters p member).1, (h.parameters p member).2.trans inside⟩
  typeParameters p member := L.known_mono le (h.typeParameters p member)
  result := h.result.mono le inside
  type := h.type.mono fun _ => L.known_mono le
  body := h.body.mono le inside ordered

theorem Declared.LiesIn.mono {k : Declared} (h : k.LiesIn L n lo hi) (le : n ≤ m)
    (inside : L.Inside lo hi lo' hi') (ordered : lo' ≤ hi') : k.LiesIn L m lo' hi' := by
  cases k with
  | object sort type initializer =>
    exact ⟨h.1.mono le inside, fun e held => (h.2 e held).mono le inside⟩
  | parameter type | super type => exact Ty.LiesIn.mono h le inside
  | callable sort c => exact Callable.LiesIn.mono h le inside ordered
  | classDecl sort kind body => exact ⟨h.1.mono le inside, h.2.mono le inside ordered⟩
  | typeParameter => trivial

theorem Decl.LiesIn.mono {d : Decl} {id : DeclId} (h : d.LiesIn L n id) (le : n ≤ m) : d.LiesIn L m id :=
  ⟨h.kind.mono le (.refl L _ _) (L.ordered id), h.constant, h.extension⟩

end

end Deferral
