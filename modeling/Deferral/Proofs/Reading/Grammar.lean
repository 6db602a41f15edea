import Mathlib.Data.List.Infix
import Deferral.Unit.Grammar

/-!
# The grammar of statements, declaratively

What forms a statement, before what follows it: tokens for keywords, marks and names, and runs of tokens
for types, expressions and conditions. A run keeps its brackets in balance and ends before the first token
outside of them that may end it.
-/

namespace Deferral

/-! ## Runs of tokens -/

/-- How a token changes the number of brackets around what follows. -/
def Token.turn (t : Token) : Int :=
  if t.kind.isOpening then 1 else if t.kind.isClosing then -1 else 0

theorem Token.turn_of_isClosing {t : Token} (closing : t.kind.isClosing = true) : t.turn = -1 := by
  have notOpening : t.kind.isOpening = false := by
    cases kind : t.kind with
    | mark m => cases m <;> simp_all [TokenKind.isOpening, TokenKind.isClosing]
    | _ => rfl
  simp [turn, notOpening, closing]

/-- Opening brackets minus closing ones, of any kind. -/
def bracketDepth : List Token → Int
  | [] => 0
  | t :: ts => t.turn + bracketDepth ts

@[simp] theorem bracketDepth_nil : bracketDepth [] = 0 := rfl

@[simp] theorem bracketDepth_cons (t : Token) (ts : List Token) :
    bracketDepth (t :: ts) = t.turn + bracketDepth ts := rfl

/-- The rest of a run, from `depth` brackets deep: brackets are closed no more often than they are open,
and all of them in the end, and no token outside of them is among `ends`. -/
structure Balanced (ends : List TokenKind) (depth : Int) (ts : List Token) : Prop where
  above : ∀ before, before <+: ts → 0 ≤ depth + bracketDepth before
  closed : depth + bracketDepth ts = 0
  inside : ∀ before t, before ++ [t] <+: ts → depth + bracketDepth before = 0 → t.kind ∉ ends

/-- What may be set aside up to one of `ends`. -/
structure IsRun (ends : List TokenKind) (ts : List Token) : Prop where
  nonempty : ts ≠ []
  balanced : Balanced ends 0 ts

/-- A run of tokens, and what comes behind it. -/
def Aside (ends : List TokenKind) (i r : List Token) : Prop := ∃ ts, IsRun ends ts ∧ i = ts ++ r

section

variable {ends : List TokenKind} {depth : Int} {t : Token} {ts : List Token}

/-- How deep each front of some tokens is, token by token. -/
theorem forall_prefix_cons_depth : (∀ before, before <+: t :: ts → 0 ≤ depth + bracketDepth before) ↔
    0 ≤ depth ∧ ∀ before, before <+: ts → 0 ≤ depth + t.turn + bracketDepth before := by
  constructor
  · intro above
    refine ⟨by simpa using above [] List.nil_prefix, fun before p => ?_⟩
    simpa [Int.add_assoc] using above (t :: before) (List.cons_prefix_cons.mpr ⟨rfl, p⟩)
  · rintro ⟨above, rest⟩ before p
    cases before with
    | nil => simpa using above
    | cons t' before =>
      obtain ⟨rfl, inner⟩ := List.cons_prefix_cons.mp p
      simpa [Int.add_assoc] using rest before inner

/-- What stands behind each front that leaves no bracket open, token by token. -/
theorem forall_prefix_cons_outside :
    (∀ before s, before ++ [s] <+: t :: ts → depth + bracketDepth before = 0 → s.kind ∉ ends) ↔
    (depth = 0 → t.kind ∉ ends) ∧
      ∀ before s, before ++ [s] <+: ts → depth + t.turn + bracketDepth before = 0 → s.kind ∉ ends := by
  constructor
  · intro outside
    refine ⟨fun zero => outside [] t (List.prefix_append [t] ts) (by simpa using zero), fun before s p => ?_⟩
    simpa [Int.add_assoc] using outside (t :: before) s (List.cons_prefix_cons.mpr ⟨rfl, p⟩)
  · rintro ⟨first, rest⟩ before s p
    cases before with
    | nil =>
      obtain ⟨rfl, -⟩ := List.cons_prefix_cons.mp p
      simpa using first
    | cons t' before =>
      obtain ⟨rfl, inner⟩ := List.cons_prefix_cons.mp p
      simpa [Int.add_assoc] using rest before s inner

namespace Balanced

theorem nil : Balanced ends depth [] ↔ depth = 0 := by
  constructor
  · exact fun h => by simpa using h.closed
  · rintro rfl
    refine ⟨fun before p => ?_, by simp, fun before t p => ?_⟩
    · rw [List.prefix_nil.mp p]
      simp
    · simp at p

/-- A run token by token. -/
theorem cons : Balanced ends depth (t :: ts) ↔
    0 ≤ depth ∧ (depth = 0 → t.kind ∉ ends) ∧ Balanced ends (depth + t.turn) ts := by
  constructor
  · rintro ⟨above, closed, inside⟩
    obtain ⟨here, above⟩ := forall_prefix_cons_depth.mp above
    obtain ⟨first, inside⟩ := forall_prefix_cons_outside.mp inside
    exact ⟨here, first, above, by simpa [Int.add_assoc] using closed, inside⟩
  · rintro ⟨here, first, above, closed, inside⟩
    exact ⟨forall_prefix_cons_depth.mpr ⟨here, above⟩, by simpa [Int.add_assoc] using closed,
      forall_prefix_cons_outside.mpr ⟨first, inside⟩⟩

end Balanced

end

/-! ### What is set aside -/

namespace Cursor

variable {ends : List TokenKind} {depth : Nat} {t s stop : Token} {upcoming taken rest : List Token}
  {endOfLast : Position} {c : Cursor}

/-- What becomes of setting tokens aside from `depth` brackets deep where `t` comes next. -/
inductive Meets (ends : List TokenKind) (depth : Nat) (t : Token) (rest : List Token) (endOfLast : Position)
    (stop : Token) : Except Diagnostic (List Token × Cursor) → Prop
  | refused : t.kind = .endOfInput ∨ depth = 0 ∧ t.kind ∉ ends ∧ t.kind.isClosing = true →
      Meets ends depth t rest endOfLast stop (.error (Cursor.mk (t :: rest) stop endOfLast).unexpected)
  | ended : t.kind ≠ .endOfInput → depth = 0 → t.kind ∈ ends →
      Meets ends depth t rest endOfLast stop (.ok ([], ⟨t :: rest, stop, endOfLast⟩))
  | passed {depth' : Nat} : t.kind ≠ .endOfInput → (depth = 0 → t.kind ∉ ends) →
      (depth' : Int) = depth + t.turn →
      Meets ends depth t rest endOfLast stop
        ((setAsideFrom ends depth' rest t.span.stop stop).map fun out => (t :: out.1, out.2))

theorem meets_setAsideFrom : Meets ends depth t rest endOfLast stop
    (setAsideFrom ends depth (t :: rest) endOfLast stop) := by
  unfold setAsideFrom
  split
  · rename_i final
    exact .refused (.inl final)
  rename_i inside
  split
  · rename_i ended
    exact .ended inside ended.1 (by simpa using ended.2)
  rename_i outside
  have outer (zero : depth = 0) : t.kind ∉ ends := fun member => outside ⟨zero, by simpa using member⟩
  split
  · rename_i opening
    exact .passed inside outer (by simp [Token.turn, opening])
  rename_i notOpening
  split
  · rename_i closing
    split
    · rename_i zero
      exact .refused (.inr ⟨zero, outer zero, closing⟩)
    · rename_i deep
      refine .passed inside outer ?_
      simp only [Token.turn, notOpening, closing, Bool.false_eq_true, if_true, if_false]
      omega
  · rename_i notClosing
    exact .passed inside outer (by simp [Token.turn, notOpening, notClosing])

/-- Tokens in front of one that ends them: a run from `depth` brackets deep that does not go past the end of the
input. -/
structure EndsAt (ends : List TokenKind) (depth : Int) (taken : List Token) (s : Token) : Prop where
  balanced : Balanced ends depth taken
  inside : ∀ t ∈ taken, t.kind ≠ .endOfInput
  ended : s.kind ∈ ends
  notLast : s.kind ≠ .endOfInput

theorem EndsAt.cons {depth : Int} : EndsAt ends depth (t :: taken) s ↔
    0 ≤ depth ∧ (depth = 0 → t.kind ∉ ends) ∧ t.kind ≠ .endOfInput ∧ EndsAt ends (depth + t.turn) taken s := by
  constructor
  · rintro ⟨balanced, inside, ended, notLast⟩
    obtain ⟨above, outer, balanced⟩ := Balanced.cons.mp balanced
    obtain ⟨first, inside⟩ := List.forall_mem_cons.mp inside
    exact ⟨above, outer, first, balanced, inside, ended, notLast⟩
  · rintro ⟨above, outer, first, balanced, inside, ended, notLast⟩
    exact ⟨Balanced.cons.mpr ⟨above, outer, balanced⟩, List.forall_mem_cons.mpr ⟨first, inside⟩, ended,
      notLast⟩

/-- Exactly a run in front of a token that ends it is set aside, and the cursor comes to stand before that
token. -/
theorem setAsideFrom_eq_ok_iff : setAsideFrom ends depth upcoming endOfLast stop = .ok (taken, c) ↔
    ∃ s rest, upcoming = taken ++ s :: rest ∧ EndsAt ends depth taken s ∧
      c = ⟨s :: rest, stop, (taken.getLast?.map (·.span.stop)).getD endOfLast⟩ := by
  induction upcoming generalizing depth endOfLast taken with
  | nil =>
    constructor
    · exact fun refused => by cases refused
    · rintro ⟨s, rest, none, -⟩
      simp at none
  | cons t behind ih =>
    have met : Meets ends depth t behind endOfLast stop _ := meets_setAsideFrom
    generalize setAsideFrom ends depth (t :: behind) endOfLast stop = out at met
    cases met with
    | refused why =>
      constructor
      · exact fun refused => by cases refused
      rintro ⟨s, rest, same, stops, -⟩
      cases taken with
      | nil =>
        obtain ⟨rfl, -⟩ := List.cons.inj same
        rcases why with final | ⟨-, outer, -⟩
        · exact absurd final stops.notLast
        · exact absurd stops.ended outer
      | cons t' taken =>
        obtain ⟨rfl, -⟩ := List.cons.inj same
        obtain ⟨-, -, first, later⟩ := EndsAt.cons.mp stops
        rcases why with final | ⟨rfl, -, closing⟩
        · exact absurd final first
        · -- No bracket is open, so that none can be closed.
          have above := later.balanced.above [] List.nil_prefix
          simp [Token.turn_of_isClosing closing] at above
    | ended inside zero member =>
      subst zero
      constructor
      · intro same
        obtain ⟨rfl, rfl⟩ := Prod.mk.inj (Except.ok.inj same)
        refine ⟨t, behind, rfl, ⟨Balanced.nil.mpr rfl, ?_, member, inside⟩, rfl⟩
        exact fun _ none => absurd none List.not_mem_nil
      · rintro ⟨s, rest, same, stops, rfl⟩
        cases taken with
        | nil =>
          obtain ⟨rfl, rfl⟩ := List.cons.inj same
          rfl
        | cons t' taken =>
          obtain ⟨rfl, -⟩ := List.cons.inj same
          exact absurd member ((EndsAt.cons.mp stops).2.1 rfl)
    | @passed depth' inside outer turned =>
      have last (taken : List Token) : ((t :: taken).getLast?.map (·.span.stop)).getD endOfLast =
          (taken.getLast?.map (·.span.stop)).getD t.span.stop := by
        rw [List.getLast?_cons]
        cases taken.getLast? <;> rfl
      constructor
      · intro same
        cases inner : setAsideFrom ends depth' behind t.span.stop stop with
        | error d =>
          rw [inner] at same
          cases same
        | ok out =>
          obtain ⟨taken', c'⟩ := out
          rw [inner] at same
          obtain ⟨rfl, rfl⟩ := Prod.mk.inj (Except.ok.inj same)
          obtain ⟨s, rest, rfl, stops, rfl⟩ := ih.mp inner
          refine ⟨s, rest, rfl, EndsAt.cons.mpr ⟨Int.natCast_nonneg _, fun zero => ?_, inside, turned ▸ stops⟩,
            by rw [last]⟩
          exact outer (Int.natCast_eq_zero.mp zero)
      · rintro ⟨s, rest, same, stops, rfl⟩
        cases taken with
        | nil =>
          obtain ⟨rfl, -⟩ := List.cons.inj same
          exact absurd stops.ended (outer (Int.natCast_eq_zero.mp (Balanced.nil.mp stops.balanced)))
        | cons t' taken =>
          obtain ⟨rfl, rest'⟩ := List.cons.inj same
          obtain ⟨-, -, -, later⟩ := EndsAt.cons.mp stops
          rw [ih.mpr ⟨s, rest, rest', turned ▸ later, by rw [last]⟩]
          rfl

/-- What is set aside is a run in front of a token that ends it, from where the cursor stood, and the cursor comes
to stand before that token. -/
theorem setAside_eq_ok_iff {c' : Cursor} {f : Excerpt} : c.setAside ends = .ok (f, c') ↔
    f.tokens ≠ [] ∧ f.position = c.position ∧
      ∃ s rest, c.upcoming = f.tokens ++ s :: rest ∧ EndsAt ends 0 f.tokens s ∧
        c' = ⟨s :: rest, c.stop, (f.tokens.getLast?.map (·.span.stop)).getD c.endOfLast⟩ := by
  have taken := @setAsideFrom_eq_ok_iff ends 0 c.stop c.upcoming f.tokens c.endOfLast c'
  rw [Int.natCast_zero] at taken
  unfold setAside
  rw [← taken]
  constructor
  · intro h
    split at h
    · cases h
    · cases h
    · rename_i some outcome
      obtain ⟨rfl, rfl⟩ := Prod.mk.inj (Except.ok.inj h)
      exact ⟨some, rfl, outcome⟩
  · rintro ⟨some, place, outcome⟩
    obtain ⟨_ | ⟨t, tokens⟩, position⟩ := f
    · exact absurd rfl some
    · rw [outcome]
      exact congrArg (fun position => Except.ok (Excerpt.mk (t :: tokens) position, c')) place.symm

/-- What is set aside is a run in front of a token that ends it. -/
theorem aside_of_setAside {c' : Cursor} {f : Excerpt} (h : c.setAside ends = .ok (f, c')) :
    IsRun ends f.tokens ∧ c.upcoming = f.tokens ++ c'.upcoming ∧ c'.stop = c.stop ∧
      ∃ s rest, c'.upcoming = s :: rest ∧ s.kind ∈ ends := by
  obtain ⟨some, -, s, rest, same, stops, rfl⟩ := setAside_eq_ok_iff.mp h
  exact ⟨⟨some, stops.balanced⟩, same, rfl, s, rest, rfl, stops.ended⟩

/-- What is set aside starts where the cursor stood, and the cursor comes to stand behind its last
token. -/
theorem place_of_setAside {c' : Cursor} {f : Excerpt} (h : c.setAside ends = .ok (f, c')) :
    f.position = c.position ∧ ∃ t, f.tokens.getLast? = some t ∧ c'.endOfLast = t.span.stop := by
  obtain ⟨some, place, s, rest, -, -, rfl⟩ := setAside_eq_ok_iff.mp h
  obtain ⟨t, last⟩ := Option.isSome_iff_exists.mp (List.getLast?_isSome.mpr some)
  exact ⟨place, t, last, by rw [last]; rfl⟩

/-- A run in front of a token that ends it is set aside, if the end of the input is neither in it nor behind
it. -/
theorem setAside_of_aside (ended : s.kind ∈ ends) (inside : ∀ t ∈ c.upcoming, t.kind ≠ .endOfInput)
    (aside : Aside ends c.upcoming (s :: rest)) :
    ∃ f c', c.setAside ends = .ok (f, c') ∧ c'.upcoming = s :: rest ∧ c'.stop = c.stop := by
  obtain ⟨ts, run, same⟩ := aside
  rw [same, List.forall_mem_append, List.forall_mem_cons] at inside
  have stops : EndsAt ends 0 ts s := ⟨run.balanced, inside.1, ended, inside.2.1⟩
  exact ⟨⟨ts, c.position⟩, _, setAside_eq_ok_iff.mpr ⟨run.nonempty, rfl, s, rest, same, stops, rfl⟩, rfl, rfl⟩

end Cursor

theorem Aside.length_lt {ends : List TokenKind} {i r : List Token} (h : Aside ends i r) :
    r.length < i.length := by
  obtain ⟨ts, run, rfl⟩ := h
  rw [List.length_append]
  exact Nat.lt_add_of_pos_left (List.length_pos_iff.mpr run.nonempty)

/-! ## Statements -/

namespace Surface

open Grammar

/-- `name: type` among the parameters of a function. -/
inductive Parameter : List Token → List Token → Prop
  | typed {name colon : Token} {i r : List Token} : name.kind = .identifier →
      colon.kind = .mark .colon → Aside [comma, closeParen] i r → Parameter (name :: colon :: i) r

/-- Further parameters, each behind a comma. -/
inductive MoreParameters : List Token → List Token → Prop
  | nil {r : List Token} : MoreParameters r r
  | cons {mark : Token} {i j r : List Token} : mark.kind = comma → Parameter i j →
      MoreParameters j r → MoreParameters (mark :: i) r

/-- The parameters of a function in their brackets. -/
inductive Parameters : List Token → List Token → Prop
  | none {left right : Token} {r : List Token} : left.kind = openParen → right.kind = closeParen →
      Parameters (left :: right :: r) r
  | some {left right : Token} {i j r : List Token} : left.kind = openParen → Parameter i j →
      MoreParameters j (right :: r) → right.kind = closeParen → Parameters (left :: i) r

/-- The result type of a function, which may be missing. -/
inductive ResultType : List Token → List Token → Prop
  | implied {r : List Token} : ResultType r r
  | named {arrow : Token} {i r : List Token} : arrow.kind = .mark .arrow →
      Aside [openCurly, assignment, semicolon] i r → ResultType (arrow :: i) r

/-- A condition in its brackets. -/
inductive Condition : List Token → List Token → Prop
  | bracketed {left right : Token} {i r : List Token} : left.kind = openParen →
      Aside [closeParen] i (right :: r) → right.kind = closeParen → Condition (left :: i) r

end Surface

/-- Whether a token of this kind starts a statement that is no expression. -/
def TokenKind.startsStatement : TokenKind → Bool
  | .keyword .varKw | .keyword .defKw | .keyword .coroutineKw | .keyword .classKw
  | .keyword .extensionKw | .keyword .superKw | .keyword .returnKw | .keyword .yieldKw
  | .keyword .ifKw | .keyword .whileKw | .keyword .breakKw | .keyword .continueKw
  | .mark .openCurly => true
  | _ => false

namespace Surface

open Grammar

mutual

/-- What forms a statement before what follows it. Where `valueless` holds nothing need be returned,
and where `nearest` holds an `else` belongs to the nearest `if` in front of it. -/
inductive Statement (valueless nearest : Bool) : List Token → List Token → Prop
  | block {i r : List Token} : Block valueless nearest i r → Statement valueless nearest i r
  | returning {word mark : Token} {i r : List Token} : word.kind = .keyword .returnKw →
      Aside [semicolon] i (mark :: r) → mark.kind = semicolon →
      Statement valueless nearest (word :: i) r
  | returningNothing {word mark : Token} {r : List Token} : valueless = true →
      word.kind = .keyword .returnKw → mark.kind = semicolon →
      Statement valueless nearest (word :: mark :: r) r
  | yielding {word mark : Token} {i r : List Token} : word.kind = .keyword .yieldKw →
      Aside [semicolon] i (mark :: r) → mark.kind = semicolon →
      Statement valueless nearest (word :: i) r
  | conditional {word : Token} {i j r : List Token} : word.kind = .keyword .ifKw → Condition i j →
      Statement valueless nearest j r →
      (nearest = true → ∀ t ∈ r.head?, t.kind ≠ .keyword .elseKw) →
      Statement valueless nearest (word :: i) r
  | alternative {word other : Token} {i j k r : List Token} : word.kind = .keyword .ifKw →
      Condition i j → Statement valueless nearest j (other :: k) → other.kind = .keyword .elseKw →
      Statement valueless nearest k r → Statement valueless nearest (word :: i) r
  | whileLoop {word : Token} {i j r : List Token} : word.kind = .keyword .whileKw → Condition i j →
      Statement valueless nearest j r → Statement valueless nearest (word :: i) r
  | breaking {word mark : Token} {r : List Token} : word.kind = .keyword .breakKw →
      mark.kind = semicolon → Statement valueless nearest (word :: mark :: r) r
  | continuing {word mark : Token} {r : List Token} : word.kind = .keyword .continueKw →
      mark.kind = semicolon → Statement valueless nearest (word :: mark :: r) r
  | variable {word name colon mark : Token} {i r : List Token} : word.kind = .keyword .varKw →
      name.kind = .identifier → colon.kind = .mark .colon →
      Aside [assignment, semicolon] i (mark :: r) → mark.kind = semicolon →
      Statement valueless nearest (word :: name :: colon :: i) r
  | initialized {word name colon equals mark : Token} {i j r : List Token} :
      word.kind = .keyword .varKw → name.kind = .identifier → colon.kind = .mark .colon →
      Aside [assignment, semicolon] i (equals :: j) → equals.kind = assignment →
      Aside [semicolon] j (mark :: r) → mark.kind = semicolon →
      Statement valueless nearest (word :: name :: colon :: i) r
  | constant {word name colon equals mark : Token} {i j r : List Token} :
      word.kind = .keyword .defKw → name.kind = .identifier → colon.kind = .mark .colon →
      Aside [assignment, semicolon] i (equals :: j) → equals.kind = assignment →
      Aside [semicolon] j (mark :: r) → mark.kind = semicolon →
      Statement valueless nearest (word :: name :: colon :: i) r
  | callable {word name : Token} {i j k r : List Token} :
      word.kind = .keyword .defKw ∨ word.kind = .keyword .coroutineKw → name.kind = .identifier →
      Parameters i j → ResultType j k → FunctionBody valueless nearest k r →
      Statement valueless nearest (word :: name :: i) r
  | classDecl {word name : Token} {i r : List Token} :
      word.kind = .keyword .classKw ∨ word.kind = .keyword .extensionKw → name.kind = .identifier →
      Block valueless nearest i r → Statement valueless nearest (word :: name :: i) r
  | kindedClass {word name colon : Token} {i j r : List Token} : word.kind = .keyword .classKw →
      name.kind = .identifier → colon.kind = .mark .colon → Aside [openCurly] i j →
      Block valueless nearest j r → Statement valueless nearest (word :: name :: colon :: i) r
  | super {word name colon mark : Token} {i r : List Token} : word.kind = .keyword .superKw →
      name.kind = .identifier → colon.kind = .mark .colon → Aside [semicolon] i (mark :: r) →
      mark.kind = semicolon → Statement valueless nearest (word :: name :: colon :: i) r
  | expression {mark : Token} {i r : List Token} :
      (∀ t ∈ i.head?, t.kind.startsStatement = false) → Aside [semicolon] i (mark :: r) →
      mark.kind = semicolon → Statement valueless nearest i r

/-- Statements between curly brackets. -/
inductive Block (valueless nearest : Bool) : List Token → List Token → Prop
  | curly {left right : Token} {i r : List Token} : left.kind = openCurly →
      Statements valueless nearest i (right :: r) → right.kind = closeCurly →
      Block valueless nearest (left :: i) r

/-- The body of a function: a block, an expression or nothing. -/
inductive FunctionBody (valueless nearest : Bool) : List Token → List Token → Prop
  | block {i r : List Token} : Block valueless nearest i r → FunctionBody valueless nearest i r
  | expression {equals mark : Token} {i r : List Token} : equals.kind = assignment →
      Aside [semicolon] i (mark :: r) → mark.kind = semicolon →
      FunctionBody valueless nearest (equals :: i) r
  | absent {mark : Token} {r : List Token} : mark.kind = semicolon →
      FunctionBody valueless nearest (mark :: r) r

/-- Statements one after the other. -/
inductive Statements (valueless nearest : Bool) : List Token → List Token → Prop
  | nil {r : List Token} : Statements valueless nearest r r
  | cons {i j r : List Token} : Statement valueless nearest i j → Statements valueless nearest j r →
      Statements valueless nearest i r

end

/-! ### Statements take tokens -/

variable {valueless nearest : Bool} {i r : List Token}

theorem Parameter.length_lt (h : Parameter i r) : r.length < i.length := by
  cases h with
  | typed _ _ aside =>
    have := aside.length_lt
    simp only [List.length_cons]
    omega

theorem MoreParameters.length_le (h : MoreParameters i r) : r.length ≤ i.length := by
  induction h with
  | nil => exact Nat.le_refl _
  | cons _ parameter _ ih =>
    have := parameter.length_lt
    simp only [List.length_cons]
    omega

theorem Parameters.length_lt (h : Parameters i r) : r.length < i.length := by
  cases h with
  | none _ _ =>
    simp only [List.length_cons]
    omega
  | some _ parameter further _ =>
    have first := parameter.length_lt
    have others := further.length_le
    simp only [List.length_cons] at others ⊢
    omega

theorem ResultType.length_le (h : ResultType i r) : r.length ≤ i.length := by
  cases h with
  | implied => exact Nat.le_refl _
  | named _ aside =>
    have := aside.length_lt
    simp only [List.length_cons]
    omega

theorem Condition.length_lt (h : Condition i r) : r.length < i.length := by
  cases h with
  | bracketed _ aside _ =>
    have := aside.length_lt
    simp only [List.length_cons] at this ⊢
    omega

mutual

theorem Statement.length_lt : ∀ {i r : List Token}, Statement valueless nearest i r →
    r.length < i.length
  | _, _, .block body => body.length_lt
  | _, _, .returning _ aside _ | _, _, .yielding _ aside _ | _, _, .variable _ _ _ aside _
  | _, _, .super _ _ _ aside _ | _, _, .expression _ aside _ => by
    have := aside.length_lt
    simp only [List.length_cons] at this ⊢
    omega
  | _, _, .returningNothing _ _ _ | _, _, .breaking _ _ | _, _, .continuing _ _ => by
    simp only [List.length_cons]
    omega
  | _, _, .conditional _ condition body _ | _, _, .whileLoop _ condition body => by
    have := condition.length_lt
    have := body.length_lt
    simp only [List.length_cons]
    omega
  | _, _, .alternative _ condition onTrue _ onFalse => by
    have := condition.length_lt
    have := onTrue.length_lt
    have := onFalse.length_lt
    simp only [List.length_cons] at *
    omega
  | _, _, .initialized _ _ _ type _ value _ | _, _, .constant _ _ _ type _ value _ => by
    have := type.length_lt
    have := value.length_lt
    simp only [List.length_cons] at *
    omega
  | _, _, .callable _ _ parameters result body => by
    have := parameters.length_lt
    have := result.length_le
    have := body.length_lt
    simp only [List.length_cons]
    omega
  | _, _, .classDecl _ _ body => by
    have := body.length_lt
    simp only [List.length_cons]
    omega
  | _, _, .kindedClass _ _ _ aside body => by
    have := aside.length_lt
    have := body.length_lt
    simp only [List.length_cons]
    omega

theorem Block.length_lt : ∀ {i r : List Token}, Block valueless nearest i r → r.length < i.length
  | _, _, .curly _ body _ => by
    have := body.length_le
    simp only [List.length_cons] at this ⊢
    omega

theorem FunctionBody.length_lt : ∀ {i r : List Token}, FunctionBody valueless nearest i r →
    r.length < i.length
  | _, _, .block body => body.length_lt
  | _, _, .expression _ aside _ => by
    have := aside.length_lt
    simp only [List.length_cons] at this ⊢
    omega
  | _, _, .absent _ => by simp

theorem Statements.length_le : ∀ {i r : List Token}, Statements valueless nearest i r →
    r.length ≤ i.length
  | _, _, .nil => Nat.le_refl _
  | _, _, .cons first rest => by
    have := first.length_lt
    have := rest.length_le
    omega

end

end Surface

end Deferral
